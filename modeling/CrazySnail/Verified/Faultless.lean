import CrazySnail.Verified.EventDispatch
import CrazySnail.Verified.HandleDiscipline
import CrazySnail.Verified.SameReading
import CrazySnail.Verified.TimerService

/-! # A client without faults

`Fault` lists what ends the program: failed assertions, `NULL` and freed pointers, records, nodes
and handles that are gone.  A client that is used with care and talks to a conforming server
reaches none of them, in any order of the events (`clientFaultless`).  The pieces are the handle
discipline, the count of wrappers, the trees of the subscriptions and the ownership of timers;
what is added here is that a stream knows its client before it is closed, and that the nodes the
dispatch stands at outlive the Lua functions it calls.
-/

namespace CrazySnail

open SearchTree (Tree Path)
open Transition World

/-! ## Streams that know their client -/

namespace Handling
variable {v : Handling} {gone : List Handle}

/-- A stream that is read or closed has its `data`. -/
structure Attended (v : Handling) : Prop where
  data : ∀ h, v.Has (fun s => s.reading || s.closing) h → v.Has Stream.data h
  waiting : ∀ h ∈ v.closing, v.Has Stream.data h

theorem Has.change {f : Stream → Bool} {t : StreamTag} {h h' : Handle}
    (hf : ∀ s, f (s.change t) = true → f s = true) (hh : (v.change t h').Has f h) : v.Has f h := by
  by_cases heq : h = h'
  · subst heq
    exact (has_change_self.mp hh).imp fun s hs => ⟨hs.1, hf s hs.2⟩
  · exact (has_change_of_ne heq).mp hh

theorem data_change {t : StreamTag} {h h' : Handle} (hh : v.Has Stream.data h) :
    (v.change t h').Has Stream.data h :=
  has_change_mono (fun s hs => by cases t <;> first | exact hs | rfl) hh

/-- A stream that has its `data` may be read and closed. -/
theorem Attended.change (hv : v.Attended) {t : StreamTag} {h : Handle}
    (ht : t ∈ [.close, .readStart] → v.Has (fun _ => true) h → v.Has Stream.data h) :
    (v.change t h).Attended where
  waiting h' hh := data_change (hv.waiting h' hh)
  data h' hh := by
    by_cases heq : h' = h
    · subst heq
      refine data_change ?_
      cases t with
      | close | readStart =>
        refine ht (by simp) ?_
        obtain ⟨s, hs, -⟩ := has_change_self.mp hh
        exact ⟨s, hs, rfl⟩
      | data => exact hv.data h' (Has.change (t := .data) (fun _ hs => hs) hh)
      | connect => exact hv.data h' (Has.change (t := .connect) (fun _ hs => hs) hh)
      | free => exact hv.data h' (Has.change (t := .free) (fun _ hs => hs) hh)
      | readStop =>
        refine hv.data h' (Has.change (t := .readStop) (fun s hs => ?_) hh)
        rw [Bool.or_eq_true]
        exact .inr (by simpa [Stream.change] using hs)
    · exact data_change (hv.data h' ((has_change_of_ne heq).mp hh))

theorem Attended.connect (hv : v.Attended) (hsound : v.Sound gone) : v.connect.Attended := by
  have hknown : ∀ h, v.Has Stream.data h → h ≠ v.next ∧ h ≠ v.next + 1 := by
    rintro h ⟨s, hs, -⟩
    have hlt := hsound.known h s hs
    exact ⟨Nat.ne_of_lt hlt, Nat.ne_of_lt (Nat.lt_succ_of_lt hlt)⟩
  have hkept : ∀ h, v.Has Stream.data h → v.connect.Has Stream.data h := fun h hh =>
    has_connect.mpr (.inr ⟨hknown h hh, hh⟩)
  refine ⟨fun h hh => ?_, fun h hh => hkept h (hv.waiting h hh)⟩
  obtain ⟨-, hinit⟩ | ⟨-, hold⟩ := has_connect.mp hh
  · cases hinit
  · exact hkept h (hv.data h hold)

/-- A trace entry, a request or a bit does not matter. -/
theorem Attended.congr {v' : Handling} (hv : v.Attended) (hstreams : v'.streams = v.streams)
    (hclosing : v'.closing = v.closing) : v'.Attended := by
  obtain ⟨trace, streams, next, stream, subStream, connected, streamFlags, requests, closing⟩ := v'
  cases hstreams
  cases hclosing
  exact ⟨hv.data, hv.waiting⟩

theorem Attended.close (hv : v.Attended) {h : Handle} (hdata : v.Has Stream.data h) :
    (v.close h).Attended :=
  Attended.change (v := v.note (.uvClose h)) (hv.congr rfl rfl) fun _ _ => hdata

/-- `disconnect()` sets the `data` of both streams before it closes them. -/
theorem Attended.disconnect (hv : v.Attended) {s ss : Handle} (hs : v.Open s) (hss : v.Open ss) :
    (v.disconnect s ss).Attended := by
  have hset : ∀ {v : Handling} {h : Handle}, v.Open h → (v.change .data h).Has Stream.data h :=
    fun hopen => has_change_self.mpr (hopen.imp fun _ hs => ⟨hs.1, rfl⟩)
  have hfirst : ((v.change .data s).change .data ss).Has Stream.data s := data_change (hset hs)
  have hsecond : ((v.change .data s).change .data ss).Has Stream.data ss := hset (open_data.mpr hss)
  have hboth : ((v.change .data s).change .data ss).Attended :=
    (hv.change (by simp)).change (by simp)
  exact (hboth.close hfirst).close (data_change (t := .close) hsecond)

end Handling

/-- **One step** leaves a stream that is read or closed with its `data`, if a connect request that
    fails has a handler. -/
theorem step_attended {w w' : World} {e : Event} {gone : List Handle}
    (hsound : w.handling.Sound gone) (hv : w.handling.Attended) (hstep : w.step e = some w')
    (hexit : e ≠ .api .exit)
    (hhandler : ∀ i status, e = .connected i status → status < 0 → w.cc.rErrorCb.slot? ≠ none)
    (hfault : w'.fault = none) : w'.handling.Attended := by
  -- a handle keeps its `data` when it is closed
  have hcloses : ∀ {v : World} {h : Handle} {v' : World}, v.handling.Attended →
      v.handling.Has Stream.data h → Closes v h v' → v'.fault = none → v'.handling.Attended := by
    intro v h v' hv hdata hclose hfault
    cases hclose with
    | done _ heq _ => exact heq.symm ▸ hv.close hdata
    | stops _ hfault' _ =>
      rw [hfault] at hfault'
      cases hfault'
  cases step_handling hstep with
  | quiet _ heq => exact heq.symm ▸ hv
  | exit => exact absurd rfl hexit
  | connect heq => exact heq.symm ▸ hv.connect hsound
  | command _ hwrites =>
    cases hwrites with
    | quiet heq | refused _ _ _ _ heq | accepted _ _ _ _ _ _ heq | dead _ _ _ _ heq =>
      exact heq.symm ▸ hv.congr rfl rfl
  | disconnect _ _ _ hopen hopen' heq => exact heq.symm ▸ hv.disconnect hopen hopen'
  | stuck _ _ hfault' =>
    rw [hfault] at hfault'
    cases hfault'
  | @resume h rest _ hstack hclose =>
    have hclosing : w.handling.closing = h :: rest.filterMap Frame.closing? := by
      change w.stack.filterMap Frame.closing? = _
      rw [hstack]
      rfl
    obtain ⟨hdata, hrest⟩ := List.forall_mem_cons.mp (hclosing ▸ hv.waiting)
    exact hcloses (v := { w with stack := rest }) ⟨hv.data, hrest⟩ hdata hclose hfault
  | readStop _ heq => exact heq.symm ▸ hv.change (t := .readStop) (by simp)
  | @readError h _ s _ _ hs hread _ hhangs =>
    have hdata := hv.data h ⟨s, hs, by simp [hread]⟩
    cases hhangs with
    | quiet heq => exact heq.symm ▸ hv
    | closes hclose => exact hcloses hv hdata hclose hfault
    | waits heq =>
      rw [heq]
      exact ⟨hv.data, List.forall_mem_cons.mpr ⟨hdata, hv.waiting⟩⟩
  | @written i req _ _ _ _ _ hwritten =>
    have hdone : (w.handling.finish i).Attended := hv.congr rfl rfl
    have hfinish := hdone.change (t := .data) (h := req.handle) (by simp)
    rcases hwritten with heq | ⟨-, heq⟩
    · exact heq.symm ▸ hfinish
    · rw [heq]
      refine hfinish.change fun _ hh => ?_
      exact Handling.has_change_self.mpr
        ((Handling.has_change_self.mp hh).imp fun _ hs => ⟨hs.1, rfl⟩)
  | @refused i req status _ _ _ hstatus hrefuses =>
    have hslot := hhandler i status rfl hstatus
    cases hrefuses with
    | reported _ heq => exact heq.symm ▸ (finish_handling w i).symm ▸ hv.congr rfl rfl
    | closes hnone =>
      -- there is an error handler, so the stream is not closed here
      refine absurd ?_ hslot
      cases hcb : w.cc.rErrorCb with
      | ref n => exact absurd hcb (hnone n)
      | noref | refnil => rfl
    | dead _ _ hfault' =>
      rw [hfault] at hfault'
      cases hfault'
  | @opened i req _ _ _ _ _ _ _ hopened =>
    have hdone : (w.handling.finish i).Attended := hv.congr rfl rfl
    have hchange := hdone.change (t := .connect) (h := req.handle) (by simp)
    rcases hopened with heq | ⟨-, f, heq⟩
    · exact heq.symm ▸ hchange.congr rfl rfl
    · exact heq.symm ▸ hchange.congr rfl rfl
  | @closed h _ _ _ _ _ _ hdisconnects =>
    have hfree : (w.handling.change .free h).Attended := hv.change (by simp)
    cases hdisconnects with
    | dead _ _ heq | half _ _ _ heq => exact heq.symm ▸ hfree.congr rfl rfl
    | last _ _ _ heq =>
      rcases heq with heq | ⟨f, heq⟩
      · exact heq.symm ▸ hfree.congr rfl rfl
      · exact heq.symm ▸ hfree.congr rfl rfl

/-! ## Wrappers that lead to records -/

theorem Touches.fault_eq {ks : List Part} {w w' : World} (h : Touches ks w w')
    (hks : ks.all (fun k => decide (k ∉ [.fault])) = true) : w'.fault = w.fault := by
  refine h.same (f := World.fault) (fun w u hu => ?_) hks
  cases u with
  | crash f => simp at hu
  | names p t => cases p <;> rfl
  | _ => rfl

/-- The trees of names hold records only. -/
theorem wrappers_nameTree {subs : List Subscription} {q : CbPtr}
    (hq : q ∈ wrappers (nameTree subs)) : ∃ id, q = .heap id := by
  have hnames : ∀ (cb : Nat) (names : List Bytes) (t : NodeT Bytes),
      (∀ q ∈ wrappers t, ∃ id, q = .heap id) →
      ∀ q ∈ wrappers (names.foldl (fun t name => namesWith t cb name) t), ∃ id, q = .heap id := by
    intro cb names
    induction names with
    | nil => exact fun _ ht => ht
    | cons name names ih =>
      intro t ht
      refine ih _ fun q hq => ?_
      rcases List.mem_cons.mp ((wrappers_namesWith t cb name).mem_iff.mp hq) with rfl | hq
      · exact ⟨cb, rfl⟩
      · exact ht q hq
  induction subs using List.reverseRecOn generalizing q with
  | nil => cases hq
  | append_singleton subs s ih =>
    rw [nameTree_snoc] at hq
    exact hnames s.cb s.names _ (fun q hq => ih hq) q hq

namespace World
variable {w : World}

/-- Every wrapper leads to a record that is alive. -/
def Living (w : World) : Prop := ∀ q ∈ w.wrappers, w.heap.deref q ≠ none

theorem Living.list (h : w.Living) : ∀ q ∈ w.cc.commandCbList, w.heap.deref q ≠ none := fun q hq =>
  h q (List.mem_append_left _ hq)

theorem Living.timer (h : w.Living) {leaf : Path} {ikey : UInt64} {val : NodeVal}
    (hget : w.cc.timers.get? leaf = some (ikey, val)) : ∀ q ∈ val.cbList, w.heap.deref q ≠ none := by
  intro q hq
  have htimers : q ∈ CrazySnail.wrappers w.cc.timers := mem_wrappers.mpr ⟨leaf, ikey, val, hget, hq⟩
  exact h q (by simp [wrappers, htimers])

/-- Without monitor mode nothing but records is entered. -/
theorem living (hcounts : w.Counts) (hlist : .stack ∉ w.cc.commandCbList) (hsub : w.Subscribed)
    (hmade : w.NodesMade) : w.Living := by
  have hheap : ∀ q ∈ w.wrappers, ∃ id, q = .heap id := by
    have hnames : ∀ p, ∀ q ∈ CrazySnail.wrappers (w.names p), ∃ id, q = .heap id := fun p q hq =>
      wrappers_nameTree (hsub.names p ▸ hq)
    intro q hq
    simp only [wrappers, List.mem_append] at hq
    rcases hq with hq | hq | hq | hq
    · cases q with
      | heap id => exact ⟨id, rfl⟩
      | stack => exact absurd hq hlist
    · exact hnames false q hq
    · exact hnames true q hq
    · obtain ⟨leaf, ikey, val, hget, hq⟩ := mem_wrappers.mp hq
      obtain ⟨p, s, -, -, hcb⟩ := hmade leaf ikey val hget
      rw [hcb] at hq
      exact ⟨s.cb, List.mem_singleton.mp hq⟩
  intro q hq
  obtain ⟨id, rfl⟩ := hheap q hq
  exact hcounts.alive id hq

/-! ### The command list -/

/-- An error report finds its record. -/
theorem shiftAndReport_fault (hliving : w.Living) (site : Site) (error : LuaValue)
    {otherwise : World → World} (ho : ∀ w, (otherwise w).fault = w.fault) :
    (w.shiftAndReport site error otherwise).fault = w.fault := by
  have hspec := w.shift_spec
  have hcall : ∀ (v : World) fn args, (v.pcall site fn args).fault = v.fault := fun v fn args =>
    (v.pcall_touches site fn args).fault_eq rfl
  unfold shiftAndReport
  split
  · exact ho w
  next list hdead =>
    simp only [hdead] at hspec
    obtain ⟨-, p, hlist, hnone⟩ := hspec
    exact absurd hnone (hliving.list p (hlist ▸ List.mem_cons_self))
  · split
    · exact hcall _ _ _
    · exact ho _

/-- A reply that can be read is delivered. -/
theorem dispatchReply_fault (hliving : w.Living) (h : Handle) (cb : LuaRef) {reply : Reply}
    (hreadable : readable reply = true) : (w.dispatchReply h cb reply).fault = w.fault := by
  have hdeliver : ∀ (v : World) cb, (v.deliverReply h cb reply).fault = v.fault := by
    intro v cb
    cases cb with
    | noref | refnil => rfl
    | ref n =>
      simp only [deliverReply, hreadable, if_true]
      exact (pcall_touches _ .reply _ _).fault_eq rfl
  obtain ⟨-, heq⟩ | ⟨list, hdead, -⟩ | ⟨list, target, heap, -, heq⟩ := w.dispatchReply_cases h cb reply
  · exact heq ▸ hdeliver _ _
  · have hspec := w.shift_spec
    simp only [hdead] at hspec
    obtain ⟨-, p, hlist, hnone⟩ := hspec
    exact absurd hnone (hliving.list p (hlist ▸ List.mem_cons_self))
  · exact heq ▸ hdeliver _ _

/-! ### Commands -/

theorem Living.keep (h : w.Living) {ks : List Part} {w' : World} (ht : Touches ks w w')
    (hks : ks.all (fun k => decide (k ∉ [.create, .attach, .detach, .addChannel, .slots, .shift,
      .append, .appendStack, .clearList, .names, .timerTree, .timerData])) = true) : w'.Living := by
  have hsame : (w'.wrappers, w'.heap) = (w.wrappers, w.heap) := by
    refine ht.same (f := fun w => (w.wrappers, w.heap)) (fun w u hu => ?_) hks
    cases u <;> first | rfl | simp at hu
  obtain ⟨hwrappers, hheap⟩ := Prod.mk.inj hsame
  unfold Living
  rw [hwrappers, hheap]
  exact h

/-- A command whose stream is there is sent. -/
theorem sendCommand_fault (hliving : w.Living) (hfault : w.fault = none) {subMode : Bool}
    (halive : w.cc.flags.connected = true → ∃ s, w.sending.Alive subMode s) (frame : Bytes)
    (owner : Option Nat) (buf error : Nat) :
    (w.sendCommand subMode frame owner buf error).fault = none := by
  have hfail : ∀ (v : World) error, v.Living → v.fault = none → (v.failSend error).fault = none :=
    fun v error hv hnone => (shiftAndReport_fault hv .sendError error fun u =>
      (rfl : (u.log (.raised (.error error))).fault = u.fault)).trans hnone
  cases hconn : w.cc.flags.connected with
  | false =>
    have hfreed : Touches [.obs .cmdBuf] w (w.freeCmd buf) := .of [.log (.freeCmd buf)] rfl rfl
    unfold sendCommand
    rw [if_neg (by simp [hconn])]
    exact hfail _ _ (hliving.keep hfreed rfl) hfault
  | true =>
    obtain ⟨s, hs⟩ := halive hconn
    obtain ⟨r, hr⟩ : ∃ r, r = if s.closing then UV_EBADF else -(error : Int) := ⟨_, rfl⟩
    obtain ⟨w₁, htouches, heq⟩ := sendCommand_written frame owner buf error hfault hconn hs hr
    have hfault₁ : w₁.fault = none := (htouches.fault_eq rfl).trans hfault
    rw [heq]
    split
    · exact hfail _ _ ((hliving.keep htouches rfl).keep (.of [.reqFree _] rfl rfl :
        Touches [.reqFree] w₁ (w₁.reqFree w.uv.reqAlloc.1)) rfl) hfault₁
    · exact hfault₁

/-- Only `monitor` starts the monitor mode. -/
theorem entered_monitoring {argv : List Bytes} (hkind : classify (argv.headD []) ≠ .monitor)
    (timers : List Bytes) (fn : Option Fn) (flags : Bool) :
    (w.entered argv timers fn flags).cc.flags.monitoring = w.cc.flags.monitoring := by
  have hflags : ∀ {ks : List Part} {v v' : World}, Touches ks v v' →
      ks.all (fun k => decide (k ∉ [.raise .monitoring, .clearFlags])) = true →
      v'.cc.flags.monitoring = v.cc.flags.monitoring := by
    intro ks v v' ht hks
    refine ht.same (f := fun w => w.cc.flags.monitoring) (fun w u hu => ?_) hks
    cases u with
    | raise t => cases t <;> first | rfl | simp at hu
    | clearFlags => simp at hu
    | names p t => cases p <;> rfl
    | _ => rfl
  change ((w.noted _ argv timers fn).registerCommand _ argv.tail timers fn flags).cc.flags.monitoring =
    (w.noted (classify (argv.headD [])) argv timers fn).cc.flags.monitoring
  generalize w.noted (classify (argv.headD [])) argv timers fn = v
  have href := hflags (v.refCallback_touches fn) rfl
  cases hkind' : classify (argv.headD []) with
  | subscribe p =>
    exact (hflags (subscribe_touches _ p v.heap.next argv.tail timers) rfl).trans href
  | unsubscribe => exact href
  | monitor => exact absurd hkind' hkind
  | ordinary => exact href

end World

/-! ## Frames that can go on -/

/-- The node at which a frame goes on is there, and its reply can be read. -/
def Frame.Stands (w : World) : Frame → Prop
  | .event p leaf _ reply =>
    readable reply = true ∧ ∃ name, (w.names p).lookup nameCmp name = some leaf
  | .timer leaf _ _ _ => w.cc.timers.get? leaf ≠ none
  | _ => True

theorem Frame.Stands.grow {w w' : World} {f : Frame} (h : f.Stands w)
    (hnames : ∀ p name leaf, (w.names p).lookup nameCmp name = some leaf →
      (w'.names p).lookup nameCmp name = some leaf)
    (htimers : ∀ leaf, w.cc.timers.get? leaf ≠ none → w'.cc.timers.get? leaf ≠ none) :
    f.Stands w' := by
  cases f with
  | event p leaf i reply => exact ⟨h.1, h.2.imp fun name => hnames p name leaf⟩
  | timer leaf i rep timeout => exact htimers leaf h
  | _ => trivial

namespace World
variable {w : World}

def Standing (w : World) : Prop := ∀ f ∈ w.stack, f.Stands w

theorem Standing.push (h : w.Standing) {f : Frame} (hf : f.Stands w) : (w.push f).Standing := by
  have hsame : ∀ {f : Frame}, f.Stands w → f.Stands (w.push f) := fun hf =>
    hf.grow (fun _ _ _ h => h) fun _ h => h
  intro f' hf'
  rcases List.mem_cons.mp hf' with rfl | hf'
  · exact hsame hf
  · exact (h f' hf').grow (fun _ _ _ h => h) fun _ h => h

theorem Standing.keep (h : w.Standing) {ks : List Part} {w' : World} (ht : Touches ks w w')
    (hks : ks.all (fun k => decide (k ∉ [.frame .event, .frame .timer, .names, .timerTree])) = true) :
    w'.Standing := by
  refine ht.keeps (I := Standing) (fun w u hu hw => ?_) hks h
  cases u with
  | push f =>
    refine hw.push ?_
    cases f with
    | event | timer => simp at hu
    | _ => trivial
  | pop => exact fun f hf => hw f (List.mem_of_mem_tail hf)
  | timerData leaf b =>
    intro f hf
    refine (hw f hf).grow (fun _ _ _ h => h) fun leaf' h => ?_
    change (w.cc.timers.modify _ leaf).get? leaf' ≠ none
    rw [Tree.get?_modify]
    simpa using h
  | names | timerTree => simp at hu
  | _ => exact hw

/-- Entering a command leaves every node in its place. -/
theorem Standing.entered (h : w.Standing) (hsub : w.Subscribed) (hkeyed : Keyed w.cc.timers)
    (argv timers : List Bytes) (fn : Option Fn) (flags : Bool) :
    (w.entered argv timers fn flags).Standing := by
  have hstack : (w.entered argv timers fn flags).stack = w.stack :=
    (w.entered_touches argv timers fn flags).eq (f := World.stack) fun v u hu => by
      cases u with
      | names p t => cases p <;> rfl
      | push | pop => simp at hu
      | _ => rfl
  intro f hf
  rw [hstack] at hf
  refine (h f hf).grow (fun p name leaf hname => ?_) fun leaf hleaf => ?_
  · rw [hsub.names] at hname
    rw [(hsub.entered argv timers fn flags).names, entered_subscriptions]
    split
    · rw [nameTree, registrations_append]
      exact SearchTree.lookup_registerAll_append nameCmp_lawful hname _
    · exact hname
  · obtain ⟨kv, hkv⟩ := Option.ne_none_iff_exists'.mp hleaf
    rw [entered_node hkeyed argv timers fn flags hkv]
    exact Option.some_ne_none kv

/-! ### The loops over the entries of a node -/

/-- A round of the event loop. -/
theorem eventLoop_stands (hexit : w.cc.exited = false) (hsub : w.Subscribed) (hcounts : w.Counts)
    (hstanding : w.Standing) {p : Bool} {leaf : Path} {i : Nat} {reply : Reply}
    (hframe : (Frame.event p leaf i reply).Stands w) :
    (w.eventLoop p leaf i reply).fault = w.fault ∧ (w.eventLoop p leaf i reply).Standing := by
  obtain ⟨hreadable, name, hname⟩ := id hframe
  obtain ⟨m, val, hget, -⟩ := Tree.exists_get?_of_lookup hname
  cases hentry : val.cbList[i]? with
  | none =>
    rw [eventLoop_end reply hexit hget hentry]
    exact ⟨rfl, hstanding⟩
  | some q =>
    have halive := hsub.entries_alive hcounts hname hget q (List.mem_of_getElem? hentry)
    obtain ⟨-, -, hfault⟩ := eventLoop_next reply hexit hget hentry halive hreadable
    refine ⟨hfault, ?_⟩
    have hround : w.eventLoop p leaf i reply =
        (w.push (.event p leaf (i + 1) reply)).callEntry .event q (eventArgs reply) := by
      simp [eventLoop, hexit, hget, hentry]
    have hcall := callEntry_touches (w.push (.event p leaf (i + 1) reply)) .event q (eventArgs reply)
      List.mem_cons_self (List.subset_cons_self Part.fault _)
    rw [hround]
    exact (hstanding.push (f := .event p leaf (i + 1) reply) hframe).keep hcall rfl

/-- A round of the loop over the entries of an interval. -/
theorem timerLoop_stands (hexit : w.cc.exited = false) (hliving : w.Living)
    (hstanding : w.Standing) {leaf : Path} {i : Nat} (rep timeout : UInt64)
    (hframe : w.cc.timers.get? leaf ≠ none) :
    (w.timerLoop leaf i rep timeout).fault = w.fault ∧ (w.timerLoop leaf i rep timeout).Standing := by
  obtain ⟨⟨ikey, val⟩, hget⟩ := Option.ne_none_iff_exists'.mp hframe
  cases hentry : val.cbList[i]? with
  | none =>
    have hend : w.timerLoop leaf i rep timeout = w := by simp [timerLoop, hexit, hget, hentry]
    rw [hend]
    exact ⟨rfl, hstanding⟩
  | some q =>
    have halive := hliving.timer hget q (List.mem_of_getElem? hentry)
    obtain ⟨c, hc⟩ := Option.ne_none_iff_exists'.mp halive
    have hround : w.timerLoop leaf i rep timeout =
        (w.push (.timer leaf (i + 1) rep timeout)).callEntry .timer q
          (some (timerArgs rep timeout)) := by
      simp [timerLoop, hexit, hget, hentry]
    have hcall := callEntry_touches (w.push (.timer leaf (i + 1) rep timeout)) .timer q
      (some (timerArgs rep timeout)) List.mem_cons_self (List.subset_cons_self Part.fault _)
    have hpushed := (hstanding.push (f := .timer leaf (i + 1) rep timeout) hframe).keep hcall rfl
    obtain ⟨args, heq⟩ := callEntry_alive (w := w.push (.timer leaf (i + 1) rep timeout)) hc .timer
      (timerArgs rep timeout)
    rw [hround]
    refine ⟨?_, hpushed⟩
    rw [heq]
    exact (pcall_touches _ .timer _ _).fault_eq rfl

/-! ### Confirmations and events -/

/-- A confirmation that can be read, on a list whose records have their intervals. -/
theorem confirm_readable (sname : Bytes) {reply : Reply} (hreadable : readable reply = true)
    {list : CallbackEnds} (hfault : w.fault = none) (h : w.Served list) :
    (confirm sname reply list w).fault = none := by
  induction list generalizing w with
  | nil => exact hfault
  | cons q list ih =>
    obtain ⟨id, c, rfl, hc, hknown⟩ := h q List.mem_cons_self
    have htouches := w.confirmEntry_touches sname reply (.heap id)
    have hentry : (confirmEntry sname reply (.heap id) w).2.fault = none := by
      have hconfirmed := confirmEntry_confirmed sname reply (.heap id) w
      generalize confirmEntry sname reply (.heap id) w = r at hconfirmed ⊢
      cases hconfirmed with
      | dead hnone => rw [Heap.deref, hc] at hnone; cases hnone
      | skipped => exact hfault
      | @visited _ c' w₁ w' hc' _ hstart _ hresult =>
        obtain rfl := Option.some.inj (hc.symm.trans hc')
        have hfault₁ : w₁.fault = none := by
          rw [← hstart, confirmChannels_fault sname false (hknown c hc), hfault]
        have hmarked : (w₁.marked id sname c).fault = none := hfault₁
        obtain ⟨hsome, -⟩ | ⟨rfl, -⟩ | ⟨rfl, -⟩ | ⟨-, hfalse, -⟩ := hresult
        · rw [hfault₁] at hsome
          cases hsome
        · exact hmarked
        · exact ((pcall_touches _ .confirmation _ _).fault_eq rfl).trans hmarked
        · rw [hreadable] at hfalse
          cases hfalse
    unfold confirm
    generalize confirmEntry sname reply (.heap id) w = r at htouches hentry ⊢
    obtain ⟨found, w'⟩ := r
    cases found with
    | true => exact hentry
    | false =>
      have hnone : w'.fault = none := hentry
      simp only [hnone, Option.isSome_none, Bool.false_eq_true, if_false]
      exact ih hnone (Served.keep (fun q hq => h q (List.mem_cons_of_mem _ hq)) htouches rfl)

/-- A reply on the subscription stream. -/
theorem getAndCallSubCb_stands (hexit : w.cc.exited = false) (hsub : w.Subscribed)
    (hcounts : w.Counts) (hstanding : w.Standing) (hfault : w.fault = none) {reply : Reply}
    (hreadable : readable reply = true)
    (hconf : ∀ elements, reply = .array elements → Conforming w reply) :
    (w.getAndCallSubCb reply).fault = none ∧ (w.getAndCallSubCb reply).Standing := by
  cases reply with
  | array elements =>
    have hconf := hconf elements rfl
    have hdispatched := getAndCallSubCb_dispatched w (.array elements)
    generalize w.getAndCallSubCb (.array elements) = w' at hdispatched ⊢
    cases hdispatched with
    | ignored _ => exact ⟨hfault, hstanding⟩
    | malformed _ hshape =>
      refine absurd ?_ hshape
      cases hconf with
      | unsubscribe hunsub => exact ⟨_, _, _, rfl, .inl hunsub⟩
      | named => exact ⟨_, _, _, rfl, .inr ⟨_, rfl⟩⟩
    | unknown heq hkind hnone =>
      cases hconf with
      | unsubscribe hunsub => cases heq; exact absurd hunsub hkind
      | named hs hname =>
        cases heq
        obtain ⟨leaf, key, val, hleaf, -⟩ := hsub.found hs hname
        rw [search_eq, hnone] at hleaf
        cases hleaf
    | unused heq hkind hleaf hget hempty =>
      cases hconf with
      | unsubscribe hunsub => cases heq; exact absurd hunsub hkind
      | named hs hname =>
        cases heq
        obtain ⟨leaf', key, val, hleaf', hget', hne⟩ := hsub.found hs hname
        rw [search_eq, hleaf] at hleaf'
        cases hleaf'
        rw [hget] at hget'
        cases hget'
        exact absurd hempty hne
    | confirmation heq hkind hleaf hget hne =>
      exact ⟨confirm_readable _ hreadable hfault (hsub.served hcounts hleaf hget),
        hstanding.keep (confirm_touches _ _ _ _) rfl⟩
    | @event stype sname rest leaf key val heq hkind hleaf hget hne =>
      obtain ⟨hnone, hkeep⟩ := eventLoop_stands hexit hsub hcounts hstanding (i := 0)
        (show (Frame.event (isPvariant stype) leaf 0 (.array elements)).Stands w from
          ⟨hreadable, sname, hleaf⟩)
      exact ⟨hnone.trans hfault, hkeep⟩
  | badArray n => cases hreadable
  | _ => exact ⟨hfault, hstanding⟩

/-! ### The teardown -/

theorem Living.heap (h : w.Living) : ∀ q ∈ w.wrappers, ∃ id, q = .heap id := by
  intro q hq
  cases q with
  | heap id => exact ⟨id, rfl⟩
  | stack => exact absurd rfl (h .stack hq)

theorem destroyList_fault {list ws : List CbPtr} (h : Counted w.heap (list ++ ws))
    (hheap : ∀ q ∈ list, ∃ id, q = .heap id) : (w.destroyList list).fault = w.fault := by
  unfold destroyList
  induction list generalizing w with
  | nil => rfl
  | cons q list ih =>
    obtain ⟨⟨id, rfl⟩, hrest⟩ := List.forall_mem_cons.mp hheap
    obtain ⟨c, -, -, hdestroy, hcounted⟩ := Counted.destroy h
    rw [List.foldl_cons, destroyWrapper, hdestroy]
    exact ih hcounted hrest

theorem destroyTree_fault {κ : Type} {root : NodeT κ} {ws : List CbPtr}
    (h : Counted w.heap (CrazySnail.wrappers root ++ ws))
    (hheap : ∀ q ∈ CrazySnail.wrappers root, ∃ id, q = .heap id) :
    (w.destroyTree root).fault = w.fault := by
  unfold destroyTree
  unfold CrazySnail.wrappers at h hheap
  generalize postorder root = vs at h hheap ⊢
  induction vs generalizing w with
  | nil => rfl
  | cons v vs ih =>
    rw [List.flatMap_cons] at h hheap
    rw [List.append_assoc] at h
    obtain ⟨hfirst, hrest⟩ := List.forall_mem_append.mp hheap
    have hnode : Counted (w.destroyNode v).heap (vs.flatMap NodeVal.cbList ++ ws) ∧
        (w.destroyNode v).fault = w.fault := by
      unfold destroyNode
      cases v.data with
      | none => exact ⟨destroyList_counted h, destroyList_fault h hfirst⟩
      | some b =>
        exact ⟨destroyList_counted (w := { w with uv := w.uv.stopTimer b }) h,
          destroyList_fault (w := { w with uv := w.uv.stopTimer b }) h hfirst⟩
    exact (ih hnode.1 hrest).trans hnode.2

/-- The trees and the list are destroyed record by record. -/
theorem destroyAll_fault (hcounts : w.Counts) (hliving : w.Living) :
    w.destroyAll.fault = w.fault := by
  have hheap := hliving.heap
  simp only [wrappers, List.forall_mem_append] at hheap
  obtain ⟨hlist, hchannels, hpatterns, htimers⟩ := hheap
  have hcounted : Counted w.heap (CrazySnail.wrappers w.cc.channels ++
      (CrazySnail.wrappers w.cc.patterns ++ (CrazySnail.wrappers w.cc.timers ++
        (w.cc.commandCbList ++ [])))) := by
    refine Counted.perm hcounts ?_
    simp only [wrappers, List.append_nil]
    refine List.perm_append_comm.trans ?_
    simp only [List.append_assoc]
    exact List.Perm.refl _
  have hfault₁ := destroyTree_fault hcounted hchannels
  have hcounted₁ := destroyTree_counted hcounted
  unfold destroyAll
  generalize hw₁ : w.destroyTree w.cc.channels = w₁ at hfault₁ hcounted₁ ⊢
  have hcc₁ : w₁.cc = w.cc := hw₁ ▸ destroyTree_cc w _
  dsimp only
  rw [hcc₁]
  have hfault₂ := destroyTree_fault (w := { w₁ with cc := { w.cc with channels := .null } })
    hcounted₁ hpatterns
  have hcounted₂ := destroyTree_counted (w := { w₁ with cc := { w.cc with channels := .null } })
    hcounted₁
  generalize hw₂ : { w₁ with cc := { w.cc with channels := .null } }.destroyTree w.cc.patterns = w₂
    at hfault₂ hcounted₂ ⊢
  have hcc₂ : w₂.cc = { w.cc with channels := .null } := hw₂ ▸ destroyTree_cc _ _
  rw [hcc₂]
  dsimp only
  have hfault₃ := destroyTree_fault
    (w := { w₂ with cc := { w.cc with channels := .null, patterns := .null } }) hcounted₂ htimers
  have hcounted₃ := destroyTree_counted
    (w := { w₂ with cc := { w.cc with channels := .null, patterns := .null } }) hcounted₂
  generalize hw₃ : { w₂ with cc := { w.cc with channels := .null, patterns := .null } }.destroyTree
    w.cc.timers = w₃ at hfault₃ hcounted₃ ⊢
  have hcc₃ : w₃.cc = { w.cc with channels := .null, patterns := .null } := hw₃ ▸ destroyTree_cc _ _
  rw [hcc₃]
  have hfault₄ := destroyList_fault (w := { w₃ with cc :=
    { w.cc with channels := .null, patterns := .null, timers := .null } }) hcounted₃ hlist
  exact hfault₄.trans (hfault₃.trans (hfault₂.trans hfault₁))

theorem teardown_fault (hcounts : w.Counts) (hliving : w.Living) : w.teardown.fault = w.fault := by
  have htouches : Touches [.raise .freeing] w (Update.apply w (.raise .freeing)) :=
    .of [.raise .freeing] rfl rfl
  have hdestroy := destroyAll_fault (hcounts.keep htouches rfl) (hliving.keep htouches rfl)
  have hcall := (callHandler_touches ((Update.apply w (.raise .freeing)).destroyAll.log .teardown)
    .disconnect w.cc.rDisconnectCb []).fault_eq rfl
  rw [teardown_eq, hcall]
  exact hdestroy

/-- The close callback of a stream that has its `data`. -/
theorem onDisconnect_fault (hcounts : w.Counts) (hliving : w.Living) {h : Handle}
    (hdata : w.handling.Has Stream.data h) :
    ((w.log (.closed h)).onDisconnect h).fault = w.fault := by
  obtain ⟨s, hs, hknown⟩ := hdata
  have hs : (w.log (.closed h)).uv.streams h = some s := hs
  have hfreed : Touches beforeTeardown w ((w.log (.closed h)).freeStream h) :=
    .of [.log (.closed h), .stream .free h, .log (.freed h)] rfl rfl
  unfold onDisconnect
  simp only [hs, Option.map_some, Option.getD_some, hknown, Bool.not_true, Bool.false_eq_true, if_false]
  generalize (if ((w.log (.closed h)).freeStream h).cc.streamFlags.stream then _ else _) = sf
  have hbits := hfreed.step (.streamFlags sf) (by simp)
  split
  · exact (teardown_fault (hcounts.keep hbits rfl) (hliving.keep hbits rfl)).trans
      (hbits.fault_eq rfl)
  · exact hbits.fault_eq rfl

end World

/-! ## Steps -/

/-- Arguments that can be read, and are not those of `monitor`. -/
def Collected.plain : Collected → Bool
  | .ok argv _ => decide (classify (argv.headD []) ≠ .monitor)
  | .raise _ => true
  | .fault _ => false

/-- What a client and its server see to, beside the handles and the intervals: `collect` can
    read the arguments of a command, no command is `monitor`, `disconnect` comes after `connect`,
    failed connects have a handler, and the server announces its arrays with counts that are
    positive as an `int`, sends what can be read and, on the subscription stream, arrays about what
    was subscribed to. -/
def World.Sensible (w : World) : Event → Prop
  | .api (.command args _) => (collect args).plain = true
  | .api .disconnect => w.cc.flags.disconnecting = true ∨ w.cc.stream ≠ none
  | .connected _ status => status < 0 → w.cc.rErrorCb.slot? ≠ none
  | .resume => ∀ h subMode cb below, w.stack = .readLoop h subMode cb :: below →
      Vectored w.cc.reader.tasks w.cc.reader.unread ∧
        ∀ reader reply, redisReaderGetReply w.cc.reader = (reader, .ok, some reply) →
          readable reply = true ∧
            (subMode = true → ∀ elements, reply = .array elements → Conforming w reply)
  | _ => True

/-- Every care taken together. -/
def Prudent (s : World × List Handle) (e : Event) (t : World × List Handle) : Prop :=
  Careful s e t ∧ OncePerInterval s.1 e t.1 ∧ s.1.Sensible e

/-- What the steps keep that is not seen from their footprints alone. -/
structure World.Clear (w : World) : Prop where
  fault : w.fault = none
  silent : w.cc.flags.monitoring = false
  records : .stack ∉ w.cc.commandCbList
  standing : w.Standing

/-- The invariant of a prudent run. -/
structure Tended (w : World) (gone : List Handle) : Prop where
  reach : Reachable w
  clear : w.Clear
  running : w.cc.exited = false
  sound : w.handling.Sound gone
  attended : w.handling.Attended
  timers : w.TimersKept
  made : w.NodesMade
  intact : w.cc.reader.Intact

theorem Tended.living {w : World} {gone : List Handle} (h : Tended w gone) : w.Living :=
  World.living (reachable_counts h.reach) h.clear.records (reachable_subscribed h.reach h.running)
    h.made

namespace World
variable {w : World} {gone : List Handle}

theorem Clear.of (h : w.Clear) {ks : List Part} {w' : World} (ht : Touches ks w w')
    (hks : ks.all (fun k => decide (k ∉ [.raise .monitoring, .appendStack])) = true)
    (hfault : w'.fault = none) (hstanding : w'.Standing) : w'.Clear := by
  have hplain : w'.cc.flags.monitoring = false ∧ .stack ∉ w'.cc.commandCbList := by
    refine ht.keeps (I := fun w => w.cc.flags.monitoring = false ∧ .stack ∉ w.cc.commandCbList)
      (fun w u hu hw => ?_) hks ⟨h.silent, h.records⟩
    cases u with
    | raise t => cases t <;> first | exact hw | simp at hu
    | clearFlags => exact ⟨rfl, hw.2⟩
    | shift => exact ⟨hw.1, fun hmem => hw.2 (List.mem_of_mem_tail hmem)⟩
    | append id => exact ⟨hw.1, by simpa [Update.apply] using hw.2⟩
    | clearList => exact ⟨hw.1, List.not_mem_nil⟩
    | names p t => cases p <;> exact hw
    | appendStack => simp at hu
    | _ => exact hw
  exact ⟨hfault, hplain.1, hplain.2, hstanding⟩

theorem Clear.keep (h : w.Clear) {ks : List Part} {w' : World} (ht : Touches ks w w')
    (hks : ks.all (fun k => decide (k ∉ [.fault, .raise .monitoring, .appendStack, .frame .event,
      .frame .timer, .names, .timerTree])) = true) : w'.Clear :=
  h.of ht (all_not_mem_mono (by simp) hks)
    ((ht.fault_eq (all_not_mem_mono (by simp) hks)).trans h.fault)
    (h.standing.keep ht (all_not_mem_mono (by simp) hks))

/-- A command whose stream is there. -/
theorem luaClientCommand_clear (h : Tended w gone) {args : List LuaArg} {env : SendEnv}
    (hsensible : w.Sensible (.api (.command args env)))
    (htarget : w.cc.flags.connected = true → ∀ argv timers, collect args = .ok argv timers →
      ∃ s, w.sending.Alive (classify (argv.headD [])).subMode s) :
    (w.luaClientCommand args env).Clear := by
  have hplain : (collect args).plain = true := hsensible
  cases hcollect : collect args with
  | fault f =>
    rw [hcollect] at hplain
    cases hplain
  | raise e =>
    have hraised : Touches [.obs .raised] w (w.log (.raised e)) := .of [.log (.raised e)] rfl rfl
    simp only [luaClientCommand, hcollect]
    exact h.clear.keep hraised rfl
  | ok argv timers =>
    rw [hcollect] at hplain
    have hkind := of_decide_eq_true hplain
    have hsub := reachable_subscribed h.reach h.running
    have hentered := w.entered_touches argv timers (callbackOf args) env.flags
    have hlist : .stack ∉ (w.entered argv timers (callbackOf args) env.flags).cc.commandCbList := by
      rw [entered_list, List.mem_append, not_or]
      refine ⟨h.clear.records, ?_⟩
      unfold ownEntry
      split <;> simp
    have hclear : (w.entered argv timers (callbackOf args) env.flags).Clear :=
      ⟨(hentered.fault_eq rfl).trans h.clear.fault,
        (entered_monitoring hkind _ _ _).trans h.clear.silent, hlist,
        h.clear.standing.entered hsub h.timers.held.keyed _ _ _ _⟩
    have hliving := living (entered_counts (reachable_counts h.reach) argv timers (callbackOf args)
      env.flags) hlist (hsub.entered _ _ _ _) (h.made.entered h.timers.held.keyed _ _ _ _)
    have hsending := hentered.sending rfl
    have hconn := congrArg Sending.connected hsending
    rw [luaClientCommand_eq hcollect]
    have hsend := sendCommand_touches (w.entered argv timers (callbackOf args) env.flags)
      (classify (argv.headD [])).subMode (redisFormatCommandArgv argv)
      (if (classify (argv.headD [])).pending then some w.heap.next else none) w.nextCmd env.error
    refine hclear.of hsend rfl (sendCommand_fault hliving hclear.fault (fun hup => ?_) _ _ _ _)
      (hclear.standing.keep hsend rfl)
    rw [hsending]
    exact htarget (hconn.symm.trans hup) argv timers hcollect

/-- A round of the reply loop. -/
theorem readLoop_clear (hclear : w.Clear) (hliving : w.Living) (hcounts : w.Counts)
    (hsub : w.Subscribed) (hexit : w.cc.exited = false) {h : Handle} {subMode : Bool} {cb : LuaRef}
    (hstored : (redisReaderGetReply w.cc.reader).1.err ≠ NULL_STORE)
    (hserver : ∀ reader reply, redisReaderGetReply w.cc.reader = (reader, .ok, some reply) →
      readable reply = true ∧
        (subMode = true → ∀ elements, reply = .array elements → Conforming w reply)) :
    (w.readLoop h subMode cb).Clear := by
  have hread : ∀ reader, Touches [.reader] w { w with cc.reader := reader } := fun reader =>
    .of [.reader reader] rfl rfl
  have hreader : ∀ reader, ({ w with cc.reader := reader } : World).Clear := fun reader =>
    hclear.keep (hread reader) rfl
  have hround := readLoop_round w h subMode cb
  generalize w.readLoop h subMode cb = w' at hround ⊢
  cases hround with
  | exited htrue =>
    rw [hexit] at htrue
    cases htrue
  | failed _ _ => exact hreader _
  | stored hget hnull =>
    rw [hget] at hstored
    exact absurd hnull hstored
  | disconnecting _ _ => exact hreader _
  | @ended reader _ _ =>
    -- without monitor mode nothing is pushed back
    have hend : Touches [.stream .readStop] { w with cc.reader := reader }
        (({ w with cc.reader := reader } : World).endRead h subMode) := by
      unfold endRead
      simp only [hclear.silent, Bool.false_eq_true, if_false]
      split
      · exact .of [.stream .readStop h] rfl rfl
      · exact .refl
    exact (hreader reader).keep hend rfl
  | @reply reader reply hget _ =>
    have hlog : Touches [.reader, .obs .reply] w (w.replied reader false reply) :=
      .of [.reader reader, .log (.reply false reply)] rfl rfl
    have hreplied := hclear.keep hlog rfl
    have hdispatch := dispatchReply_touches (w.replied reader false reply) h cb reply
    refine hreplied.of hdispatch rfl ?_ (hreplied.standing.keep hdispatch rfl)
    exact (dispatchReply_fault (hliving.keep hlog rfl) h cb (hserver reader reply hget).1).trans
      hreplied.fault
  | @subError reader message _ _ =>
    have hlog : Touches [.reader, .obs .reply, .frame .readLoop] w
        ((w.replied reader true (.error message)).push (.readLoop h true cb)) :=
      .of [.reader reader, .log (.reply true (.error message)), .push (.readLoop h true cb)] rfl rfl
    exact hclear.keep hlog rfl
  | @subReply reader reply hget hmode =>
    have hlog : Touches [.reader, .obs .reply, .frame .readLoop] w
        ((w.replied reader true reply).push (.readLoop h true cb)) :=
      .of [.reader reader, .log (.reply true reply), .push (.readLoop h true cb)] rfl rfl
    have hreplied := hclear.keep hlog rfl
    obtain ⟨hreadable, hconf⟩ := hserver reader reply hget
    have hconf : ∀ elements, reply = .array elements →
        Conforming ((w.replied reader true reply).push (.readLoop h true cb)) reply := by
      intro elements heq
      cases hconf hmode elements heq with
      | unsubscribe hunsub => exact .unsubscribe hunsub
      | named hs hname => exact .named (hlog.subscriptions rfl _ ▸ hs) hname
    obtain ⟨hfault, hstanding⟩ := getAndCallSubCb_stands
      (w := (w.replied reader true reply).push (.readLoop h true cb)) hexit (hsub.keep hlog rfl)
      (hcounts.keep hlog rfl) hreplied.standing hreplied.fault hreadable hconf
    exact hreplied.of (getAndCallSubCb_touches _ reply) rfl hfault hstanding

end World

namespace World

/-- A connect request completes, or its failure has a handler. -/
theorem connectCompleted_fault {w : World} (req : Request) {status : Int}
    (hhandler : status < 0 → w.cc.rErrorCb.slot? ≠ none) :
    (w.connectCompleted req status).fault = w.fault := by
  simp only [connectCompleted, uvConnected, onConnect]
  by_cases hstatus : status < 0
  · have hslot := hhandler hstatus
    simp only [hstatus, if_true]
    cases hcb : w.cc.rErrorCb with
    | ref n =>
      rw [show (w.reqFree req.block).cc.rErrorCb = .ref n from hcb]
      exact (pcall_touches _ .error _ _).fault_eq rfl
    | noref | refnil => exact absurd (by rw [hcb]; rfl) hslot
  · simp only [hstatus, if_false]
    generalize (if (!_) = true then _ else _ : StreamFlags) = sf
    split
    · exact (callHandler_touches _ .connect _ _).fault_eq rfl
    · rfl

end World

/-- **One step** reaches no fault. -/
theorem step_clear {w w' : World} {gone : List Handle} {e : Event} (h : Tended w gone)
    (hstep : w.step e = some w') (hcareful : Careful (w, gone) e (w', givenUp gone w e))
    (hsensible : w.Sensible e) : w'.Clear := by
  have hcounts := reachable_counts h.reach
  have hsub := reachable_subscribed h.reach h.running
  have hliving := h.living
  have htouches := step_touches hstep
  cases (step_cases hstep).2 with
  | api c _ =>
    cases c with
    | on event fn => exact h.clear.keep htouches rfl
    | connect =>
      refine h.clear.of htouches rfl ?_ (h.clear.standing.keep htouches rfl)
      change w.luaClientConnect.fault = none
      unfold luaClientConnect
      rw [if_neg (by simp [h.running])]
      exact h.clear.fault
    | command args env =>
      refine luaClientCommand_clear h hsensible fun hconn argv timers hcollect => ?_
      -- the target is open, since it has not been given up
      obtain ⟨s, ss, hs, hss, -⟩ := h.sound.up hconn
      have hopen : ∀ h₁, w.sending.target (classify (argv.headD [])).subMode = some h₁ →
          ∃ s, w.sending.Alive (classify (argv.headD [])).subMode s := by
        intro h₁ htarget
        have hcurrent := target_current htarget
        obtain ⟨⟨s, hs, hisOpen⟩, -⟩ := h.sound.isOpen hcurrent
          (hcareful hconn argv timers hcollect h₁ htarget)
        simp only [Handling.isOpen, Bool.and_eq_true, Bool.not_eq_true'] at hisOpen
        exact ⟨s, h₁, htarget, hs, hisOpen.1⟩
      cases hmode : (classify (argv.headD [])).subMode with
      | false => exact hmode ▸ hopen s (by rw [hmode]; exact hs)
      | true => exact hmode ▸ hopen ss (by rw [hmode]; exact hss)
    | disconnect =>
      refine h.clear.of htouches rfl ?_ (h.clear.standing.keep htouches rfl)
      change w.luaClientDisconnect.fault = none
      cases hdisc : w.cc.flags.disconnecting with
      | true =>
        unfold luaClientDisconnect
        rw [if_pos hdisc]
        exact h.clear.fault
      | false =>
        have hconnected : w.cc.stream ≠ none := hsensible.resolve_left (by simp [hdisc])
        exact (disconnect_sound h.sound hstep hcareful).2 hconnected
    | exit => exact hcareful.elim
  | ret ok hstack => exact h.clear.keep htouches rfl
  | @resume f rest hstack _ =>
    have hpop : Touches [.pop] w { w with stack := rest } := by
      refine .of [.pop] ?_ rfl
      simp [Update.apply, hstack]
    have hclear := h.clear.keep hpop rfl
    have hframe : f.Stands w := h.clear.standing f (hstack ▸ List.mem_cons_self)
    cases f with
    | lua site top => exact hclear
    | readLoop h₁ subMode cb =>
      obtain ⟨hvectored, hserver⟩ := hsensible h₁ subMode cb rest hstack
      refine readLoop_clear hclear (hliving.keep hpop rfl) (hcounts.keep hpop rfl)
        (hsub.keep hpop rfl) h.running (h.intact.getReply hvectored).stored fun reader reply hget => ?_
      obtain ⟨hreadable, hconf⟩ := hserver reader reply hget
      refine ⟨hreadable, fun hmode elements heq => ?_⟩
      cases hconf hmode elements heq with
      | unsubscribe hunsub => exact .unsubscribe hunsub
      | named hs hname => exact .named hs hname
    | closeStream h₁ =>
      have hclose := uvClose_touches { w with stack := rest } (some h₁)
      refine hclear.of hclose rfl ?_ (hclear.standing.keep hclose rfl)
      have hwaiting : h₁ ∈ w.handling.closing := by
        change h₁ ∈ w.stack.filterMap Frame.closing?
        rw [hstack]
        exact List.mem_cons_self
      cases uvClose_handling { w with stack := rest } h₁ with
      | done _ _ hfault => exact hfault.trans h.clear.fault
      | stops hnot _ _ =>
        exact absurd (Handling.open_iff.mpr (h.sound.waiting h₁ hwaiting).1) hnot
    | bufFree buf =>
      have hfree : Touches [.bufs] { w with stack := rest } ({ w with stack := rest }.bufFree buf) :=
        .of [.bufs (w.bufs.free buf)] rfl rfl
      exact hclear.keep hfree rfl
    | event p leaf i reply =>
      obtain ⟨hfault, hstanding⟩ := eventLoop_stands (w := { w with stack := rest }) h.running
        (hsub.keep hpop rfl) (hcounts.keep hpop rfl) hclear.standing
        (show (Frame.event p leaf i reply).Stands { w with stack := rest } from hframe)
      exact hclear.of (eventLoop_touches _ p leaf i reply) rfl (hfault.trans hclear.fault) hstanding
    | timer leaf i rep timeout =>
      obtain ⟨hfault, hstanding⟩ := timerLoop_stands (w := { w with stack := rest }) (i := i) h.running
        (hliving.keep hpop rfl) hclear.standing rep timeout hframe
      exact hclear.of (timerLoop_touches _ leaf i rep timeout) rfl (hfault.trans hclear.fault)
        hstanding
  | read h₁ data cb _ _ => exact h.clear.keep htouches rfl
  | readError h₁ nread hstack hread _ =>
    refine h.clear.of htouches rfl ?_ (h.clear.standing.keep htouches rfl)
    have hopen : w.handling.Open h₁ := by
      unfold readable? at hread
      split at hread
      next s hs =>
        simp only [Bool.and_eq_true, Bool.not_eq_true'] at hread
        refine ⟨s, hs, ?_, hread.2⟩
        by_contra hfreed
        obtain ⟨t, ht, hclosing⟩ := h.sound.freedClosing h₁ ⟨s, hs, by simpa using hfreed⟩
        obtain rfl := Option.some.inj (hs.symm.trans ht)
        rw [hread.2] at hclosing
        cases hclosing
      · cases hread
    unfold onReadError
    split
    · exact h.clear.fault
    · dsimp only
      split
      · exact ((pcall_touches _ .error _ _).fault_eq rfl).trans h.clear.fault
      · cases uvClose_handling { w with bufs := w.bufs.alloc.2 } h₁ with
        | done _ _ hfault => exact hfault.trans h.clear.fault
        | stops hnot _ _ => exact absurd hopen hnot
  | @written i req status readStart _ _ _ _ _ =>
    refine h.clear.of htouches rfl ?_ (h.clear.standing.keep htouches rfl)
    have hwritten : Touches [.finish, .stream .data, .reqFree] w (({ w.finish i with
        uv := (w.finish i).uv.setStream req.handle fun s => { s with data := true } }).reqFree
          req.block) := .of [.finish i, .stream .data req.handle, .reqFree req.block] rfl rfl
    have hshift : ∀ error, (World.shiftAndReport (({ w.finish i with
        uv := (w.finish i).uv.setStream req.handle fun s => { s with data := true } }).reqFree
          req.block) .writeError error id).fault = none := fun error =>
      (shiftAndReport_fault (hliving.keep hwritten rfl) .writeError error fun _ => rfl).trans
        h.clear.fault
    unfold onWrite
    dsimp only
    split
    · exact hshift _
    · split
      · exact hshift _
      · exact h.clear.fault
  | @connected i req status _ _ _ _ _ =>
    refine h.clear.of htouches rfl ?_ (h.clear.standing.keep htouches rfl)
    exact (connectCompleted_fault (w := w.finish i) req hsensible).trans h.clear.fault
  | @closed h₁ s hstack hs hclosing _ _ =>
    have hdata := h.attended.data h₁ ⟨s, hs, by simp [hclosing]⟩
    refine h.clear.of htouches rfl ((onDisconnect_fault hcounts hliving hdata).trans h.clear.fault) ?_
    obtain ⟨luas, hluas, htags⟩ := htouches.luaFrames rfl
    rw [hstack, List.append_nil] at hluas
    intro f hf
    have htag := htags f (hluas ▸ hf)
    cases f <;> trivial
  | @tick b t timeout hstack ht hactive =>
    have hfired : Touches [.fired] w (w.fired b t) := .of [.fired b t] rfl rfl
    have hclear := h.clear.keep hfired rfl
    obtain ⟨leaf, val, hget, -⟩ := h.timers.held.active b t ht hactive
    have hleaf : searchTimer t.rep (w.fired b t).cc.timers = some leaf :=
      (searchTimer_eq _ _).trans (h.timers.held.keyed leaf _ _ hget)
    unfold onTimer
    split
    · exact hclear
    · simp only [hleaf]
      have hthere : (w.fired b t).cc.timers.get? leaf ≠ none := by
        change w.cc.timers.get? leaf ≠ none
        rw [hget]
        exact Option.some_ne_none _
      obtain ⟨hfault, hstanding⟩ := timerLoop_stands (w := w.fired b t) (i := 0) h.running
        (hliving.keep hfired rfl) hclear.standing t.rep timeout hthere
      exact hclear.of (timerLoop_touches _ leaf 0 t.rep timeout) rfl (hfault.trans hclear.fault)
        hstanding

/-- The reader stays in order. -/
theorem step_intact {w w' : World} {e : Event} (hstep : w.step e = some w')
    (hsensible : w.Sensible e) (h : w.cc.reader.Intact) : w'.cc.reader.Intact := by
  obtain heq | ⟨_, data, _, _, heq⟩ | ⟨h₁, subMode, cb, rest, rfl, hstack, heq⟩ := step_reader hstep
  · exact heq ▸ h
  · exact heq ▸ h.feed data
  · exact heq ▸ h.getReply (hsensible h₁ subMode cb rest hstack).1

theorem step_tended {w w' : World} {gone : List Handle} {e : Event} (h : Tended w gone)
    (hstep : w.step e = some w') (hprudent : Prudent (w, gone) e (w', givenUp gone w e)) :
    Tended w' (givenUp gone w e) := by
  obtain ⟨hcareful, honce, hsensible⟩ := hprudent
  have hclear := step_clear h hstep hcareful hsensible
  have hexit : e ≠ .api .exit := fun heq => by
    subst heq
    exact hcareful
  have hrunning : w'.cc.exited = false := (step_exited hstep hexit).trans h.running
  have hattended := step_attended h.sound h.attended hstep hexit (fun i status heq hstatus => by
    subst heq
    exact hsensible hstatus) hclear.fault
  exact ⟨h.reach.extend hstep, hclear, hrunning, step_sound h.sound hstep hcareful, hattended,
    step_timers h.reach hstep honce h.timers,
    step_nodesMade h.reach hstep h.timers.held.keyed (fun _ => h.made) hrunning,
    step_intact hstep hsensible h.intact⟩

theorem tended_new (ignore : Bool) : Tended (World.new ignore) [] where
  reach := ⟨ignore, [], rfl⟩
  clear := ⟨rfl, rfl, List.not_mem_nil, fun _ hf => absurd hf List.not_mem_nil⟩
  running := rfl
  sound := sound_new ignore
  attended :=
    { data := fun h hh => by
        obtain ⟨s, hs, -⟩ := hh
        cases hs
      waiting := fun h hh => absurd hh List.not_mem_nil }
  timers := timersKept .nil
  made := nodesMade_null rfl
  intact := ⟨fun _ => RedisReader.create_valid, by simp [World.new, RedisReader.create, NULL_STORE]⟩

/-- **No fault.**  A client that is used with care and whose server conforms fails no assertion
    and uses no stream, record, node, element vector or reader that is `NULL` or gone, in whatever
    order its events come. -/
theorem clientFaultless {ignore : Bool} {es : List Event} {w : World} {gone : List Handle}
    (hrun : RunsUnder (watched World.step givenUp) Prudent (World.new ignore, []) es (w, gone)) :
    w.fault = none := by
  have htended : Tended w gone := by
    refine hrun.invariant (I := fun s => Tended s.1 s.2) (fun s e t hs hst hC => ?_)
      (tended_new ignore)
    obtain ⟨hstep, hgone⟩ := watched_eq_some.mp hst
    obtain ⟨w, gone⟩ := s
    obtain ⟨w', gone'⟩ := t
    obtain rfl : givenUp gone w e = gone' := hgone
    exact step_tended hs hstep hC
  exact htended.clear.fault

/-- A round of the reply loop finds what a conforming server sends. -/
def World.conformsCheck (w : World) (subMode : Bool) : Option Reply → Bool
  | some (.array (.string stype :: .string name :: rest)) =>
    readable (.array (.string stype :: .string name :: rest)) &&
      (subscriptions (isPvariant stype) w.trace).any fun s => s.names.any fun n => decide (n = name)
  | some reply => readable reply && !subMode
  | none => true

def World.sensibleCheck (w : World) : Event → Bool
  | .api (.command args _) => (collect args).plain
  | .api .disconnect => w.cc.stream.isSome
  | .connected _ status => decide (0 ≤ status)
  | .resume =>
    match w.stack with
    | .readLoop _ subMode _ :: _ =>
      vectored (w.cc.reader.unread.length + 1) w.cc.reader.tasks w.cc.reader.unread &&
        w.conformsCheck subMode (redisReaderGetReply w.cc.reader).2.2
    | _ => true
  | _ => true

def prudentCheck (s : World × List Handle) (e : Event) : Bool :=
  carefulCheck s e && onceCheck s.1 e && s.1.sensibleCheck e

theorem conforming_of_check {w : World} {subMode : Bool} {reply : Reply}
    (h : w.conformsCheck subMode (some reply) = true) : readable reply = true ∧
      (subMode = true → ∀ elements, reply = .array elements → Conforming w reply) := by
  unfold World.conformsCheck at h
  split at h
  next stype name rest heq =>
    cases heq
    obtain ⟨hreadable, hnames⟩ := Bool.and_eq_true_iff.mp h
    refine ⟨hreadable, fun _ elements heq => ?_⟩
    obtain ⟨s, hs, hname⟩ := List.any_eq_true.mp hnames
    obtain ⟨n, hn, heq⟩ := List.any_eq_true.mp hname
    obtain rfl := of_decide_eq_true heq
    exact .named hs hn
  next _ _ heq =>
    cases heq
    obtain ⟨hreadable, hmode⟩ := Bool.and_eq_true_iff.mp h
    refine ⟨hreadable, fun htrue => ?_⟩
    rw [htrue] at hmode
    cases hmode
  next heq => cases heq

theorem sensible_of_check {w : World} {e : Event} (h : w.sensibleCheck e = true) :
    w.Sensible e := by
  cases e with
  | api c =>
    cases c with
    | command args env => exact h
    | disconnect => exact .inr (Option.isSome_iff_ne_none.mp h)
    | _ => trivial
  | connected i status =>
    intro hstatus
    have hpos : 0 ≤ status := of_decide_eq_true h
    omega
  | resume =>
    intro h₁ subMode cb below hstack
    simp only [World.sensibleCheck, hstack, Bool.and_eq_true] at h
    refine ⟨vectored_sound h.1, fun reader reply hget => ?_⟩
    rw [hget] at h
    exact conforming_of_check h.2
  | _ => trivial

theorem prudent_of_check {s t : World × List Handle} {e : Event} (h : prudentCheck s e = true) :
    Prudent s e t := by
  simp only [prudentCheck, Bool.and_eq_true] at h
  exact ⟨careful_of_check h.1.1, oncePerInterval_of_check h.1.2, sensible_of_check h.2⟩

/-- A command and its reply; a subscription with a timer, its confirmation, a message and a tick;
    the end of the connection, and another one. -/
def prudentRun : List Event :=
  [.api .connect, .connected 0 0, .connected 0 0,
   .api (.command [.string (ascii "ping"), .function 1] ⟨0, false⟩),
   .api (.command [.string (ascii "subscribe"), .string (ascii "a"),
     .string (ascii "__timer@0__:50"), .function 2] ⟨0, false⟩),
   .written 0 0 0, .written 0 0 0, .read 0 (ascii "+PONG\r\n") .noref, .resume, .ret true, .resume,
   .read 1 (ascii "*3\r\n$9\r\nsubscribe\r\n$1\r\na\r\n:1\r\n") .noref, .resume, .resume,
   .read 1 (ascii "*3\r\n$7\r\nmessage\r\n$1\r\na\r\n$1\r\nx\r\n") .noref, .resume, .ret true,
   .resume, .resume, .tick 0 50, .ret true, .resume, .api .disconnect, .closed 0, .closed 1,
   .api .connect, .connected 0 0, .connected 0 0]

theorem clientFaultless_served :
    ∃ w, runs (World.new true) prudentRun = some w ∧ w.fault = none ∧
      (calls w.trace).map (fun c => (c.1, c.2.1)) = [(.reply, 1), (.event, 2), (.timer, 2)] := by
  have hrun : (runChecked (watched World.step givenUp) prudentCheck (World.new true, [])
      prudentRun).map (fun s => (calls s.1.trace).map fun c => (c.1, c.2.1)) =
      some [(.reply, 1), (.event, 2), (.timer, 2)] := by decide +kernel
  obtain ⟨⟨w, gone⟩, hw, hcalls⟩ := Option.map_eq_some_iff.mp hrun
  have hunder := runsUnder_of_checked (C := Prudent) (fun _ _ _ h _ => prudent_of_check h) hw
  exact ⟨w, run_of_watched hunder.run_eq, clientFaultless hunder, hcalls⟩

end CrazySnail
