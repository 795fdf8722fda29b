import CrazySnail.Verified.CommandFrame
import CrazySnail.Verified.ReplyMatching
import CrazySnail.Verified.StreamSeparation

/-! # The client and a server

A server reads commands off the command stream, works them off one after the other and writes a
reply to each; the replies arrive in chunks of any size, at any time after their commands.  In a
conversation every command gets the reply to itself: its callback is called with what the server
made of the command in the state the commands before it led to (`conversation`).
-/

namespace CrazySnail

open Decoder (Decodes symbols messages)
open Resp (encodeAll toReplies AllWellFormed)

/-! ## Servers -/

/-- A server: what a command does to its state, and the reply. -/
structure Server (σ : Type) where
  start : σ
  exec : σ → List Bytes → σ × Resp
  wellFormed : ∀ s argv, (exec s argv).2.WellFormed 0

namespace Server
variable {σ : Type} (S : Server σ)

/-- The replies to a list of commands, from a state on. -/
def repliesFrom : σ → List (List Bytes) → List Resp
  | _, [] => []
  | s, argv :: rest => (S.exec s argv).2 :: repliesFrom (S.exec s argv).1 rest

def replies (commands : List (List Bytes)) : List Resp := S.repliesFrom S.start commands

theorem length_repliesFrom (s : σ) (commands : List (List Bytes)) :
    (S.repliesFrom s commands).length = commands.length := by
  induction commands generalizing s with
  | nil => rfl
  | cons argv rest ih => rw [repliesFrom, List.length_cons, List.length_cons, ih]

theorem wellFormed_repliesFrom (s : σ) (commands : List (List Bytes)) :
    AllWellFormed 0 (S.repliesFrom s commands) := by
  induction commands generalizing s with
  | nil => trivial
  | cons argv rest ih => exact ⟨S.wellFormed s argv, ih _⟩

/-- Later commands do not change the replies to the first ones. -/
theorem repliesFrom_take (s : σ) (commands : List (List Bytes)) (n : Nat) :
    S.repliesFrom s (commands.take n) = (S.repliesFrom s commands).take n := by
  induction commands generalizing s n with
  | nil => rw [List.take_nil, repliesFrom, List.take_nil]
  | cons argv rest ih =>
    cases n with
    | zero => rfl
    | succ n => rw [List.take_succ_cons, repliesFrom, repliesFrom, List.take_succ_cons, ih]

end Server

/-- A command as a server reads it. -/
def request (argv : List Bytes) : Reply := .array (argv.map .string)

mutual
/-- What a server writes can be turned into Lua values. -/
theorem readable_toReply : (m : Resp) → readable m.toReply = true
  | .status _ => rfl
  | .error _ => rfl
  | .integer _ => rfl
  | .bulk _ => rfl
  | .nullBulk => rfl
  | .nullArray => rfl
  | .array elements => allReadable_toReplies elements

theorem allReadable_toReplies : (ms : List Resp) → allReadable (toReplies ms) = true
  | [] => rfl
  | m :: ms => by
    rw [toReplies, allReadable, readable_toReply m, allReadable_toReplies ms]
    rfl
end

/-! ## The wire -/

/-- The commands that expect a reply, with their callbacks. -/
def requests (trace : List Obs) : List (List Bytes × Option Fn) :=
  trace.filterMap fun
    | .command kind argv _ fn _ => if kind.pending then some (argv, fn) else none
    | _ => none

/-- What was written, and where. -/
def written (trace : List Obs) : List (Handle × Bytes) :=
  trace.filterMap fun
    | .uvWrite h frame => some (h, frame)
    | _ => none

/-- The streams, what was written to them, and the commands. -/
structure Wire where
  stream : Option Handle
  subStream : Option Handle
  written : List (Handle × Bytes)
  requests : List (List Bytes × Option Fn)

/-- The bytes on the command stream. -/
def Wire.bytes (v : Wire) : Bytes :=
  (v.written.filter fun p => decide (v.stream = some p.1)).flatMap Prod.snd

def World.wire (w : World) : Wire where
  stream := w.cc.stream
  subStream := w.cc.subStream
  written := CrazySnail.written w.trace
  requests := CrazySnail.requests w.trace

def wireParts : List Part := [.handles, .obs .uvWrite, .obs .command]

theorem Update.apply_wire (w : World) (u : Update) (hu : u.part ∉ wireParts) :
    (u.apply w).wire = w.wire := by
  cases u with
  | log o =>
    cases o <;> first
      | simp [wireParts] at hu; done
      | simp [apply, World.log, World.wire, written, requests]
  | names p t => cases p <;> rfl
  | handles => simp [wireParts] at hu
  | _ => rfl

theorem Touches.wire {ks : List Part} {w w' : World} (h : Touches ks w w')
    (hks : ks.all (fun k => decide (k ∉ wireParts)) = true) : w'.wire = w.wire :=
  h.same (fun w u hu => u.apply_wire w hu) hks

/-- The command stream carries the frames of the commands. -/
structure Wire.Ok (v : Wire) : Prop where
  unconnected : v.stream = none → v.subStream = none ∧ v.written = [] ∧ v.requests = []
  apart : ∀ h, v.stream = some h → v.subStream ≠ some h
  carries : v.bytes = (v.requests.map Prod.fst).flatMap redisFormatCommandArgv
  fits : ∀ c ∈ v.requests, (redisFormatCommandArgv c.1).length < 2 ^ 31

theorem wire_new (ignore : Bool) : (World.new ignore).wire.Ok where
  unconnected _ := ⟨rfl, rfl, rfl⟩
  apart _ h := by cases h
  carries := rfl
  fits _ h := absurd h List.not_mem_nil

namespace World
variable {w : World}

theorem uvWrite_wire (w : World) (h : Handle) (block : Block) (frame : Bytes) (owner : Option Nat)
    (buf error : Nat) :
    (w.uvWrite (some h) block frame owner buf error).2.wire =
      { w.wire with written := w.wire.written ++ [(h, frame)] } := by
  have hlog : (w.log (.uvWrite h frame)).wire =
      { w.wire with written := w.wire.written ++ [(h, frame)] } := by
    simp [wire, log, CrazySnail.written, CrazySnail.requests]
  unfold uvWrite
  dsimp only
  split
  · exact hlog
  · split
    · exact hlog
    · split
      · exact hlog
      · split <;> exact hlog

theorem entered_wire (w : World) (argv timers : List Bytes) (fn : Option Fn) (flags : Bool) :
    (w.entered argv timers fn flags).wire =
      { w.wire with requests := w.wire.requests ++
          if (classify (argv.headD [])).pending then [(argv, fn)] else [] } := by
  rw [entered, (registerCommand_touches _ _ _ _ _ _).wire rfl]
  generalize classify (argv.headD []) = kind
  simp only [noted, wire, log, CrazySnail.written, CrazySnail.requests, List.filterMap_append,
    List.filterMap_cons, List.filterMap_nil, List.append_nil]
  cases kind.pending <;> rfl

/-- A command that is sent is noted, and its frame goes to its stream. -/
theorem luaClientCommand_wire {args : List LuaArg} {env : SendEnv} {argv timers : List Bytes}
    (hcollect : collect args = .ok argv timers) (hfault : w.fault = none)
    (hsend : Sendable w.sending (classify (argv.headD [])).subMode env) :
    ∃ h, w.sending.target (classify (argv.headD [])).subMode = some h ∧
      (w.luaClientCommand args env).wire =
        { w.wire with
          written := w.wire.written ++ [(h, redisFormatCommandArgv argv)]
          requests := w.wire.requests ++
            if (classify (argv.headD [])).pending then [(argv, callbackOf args)] else [] } := by
  have hsending := (w.entered_touches argv timers (callbackOf args) env.flags).sending rfl
  have hwire := w.entered_wire argv timers (callbackOf args) env.flags
  rw [luaClientCommand_eq hcollect]
  obtain ⟨hconn, hending, herror, s, ⟨h, htarget, hs, hfreed⟩, hclosing⟩ := hsend
  refine ⟨h, htarget, ?_⟩
  generalize w.entered argv timers (callbackOf args) env.flags = w₁ at hsending hwire ⊢
  have hconn₁ : w₁.cc.flags.connected = true := (congrArg Sending.connected hsending).trans hconn
  have hending₁ : (w₁.cc.flags.disconnecting || w₁.cc.flags.freeing) = false :=
    (congrArg Sending.ending hsending).trans hending
  have htarget₁ : (if (classify (argv.headD [])).subMode then w₁.cc.subStream else w₁.cc.stream) =
      some h := (congrFun (congrArg Sending.target hsending) _).trans htarget
  have hs₁ : w₁.uv.reqAlloc.2.streams h = some s := by
    rw [show w₁.uv.reqAlloc.2.streams = w₁.uv.streams by unfold Uv.reqAlloc; split <;> rfl]
    exact (congrFun (congrArg Sending.streams hsending) h).trans hs
  obtain ⟨hresult, htouches⟩ := uvWrite_alive (w := { w₁ with uv := w₁.uv.reqAlloc.2 }) hs₁ hfreed
    w₁.uv.reqAlloc.1 (redisFormatCommandArgv argv)
    (if (classify (argv.headD [])).pending then some w.heap.next else none) w.nextCmd env.error
  have hwrite := uvWrite_wire { w₁ with uv := w₁.uv.reqAlloc.2 } h w₁.uv.reqAlloc.1
    (redisFormatCommandArgv argv)
    (if (classify (argv.headD [])).pending then some w.heap.next else none) w.nextCmd env.error
  have hsending₂ := htouches.sending rfl
  unfold sendCommand
  simp only [hconn₁, if_true, htarget₁]
  generalize { w₁ with uv := w₁.uv.reqAlloc.2 }.uvWrite (some h) w₁.uv.reqAlloc.1
    (redisFormatCommandArgv argv)
    (if (classify (argv.headD [])).pending then some w.heap.next else none) w.nextCmd env.error
    = result at hresult hwrite hsending₂ ⊢
  obtain ⟨r, w₂⟩ := result
  -- the stream is open and libuv reports no error, so the write is accepted
  obtain rfl : r = 0 := by rw [hclosing, herror] at hresult; exact hresult
  have hfault₂ : w₂.fault = none :=
    (congrArg Sending.fault hsending₂).trans ((congrArg Sending.fault hsending).trans hfault)
  have hending₂ : (w₂.cc.flags.disconnecting || w₂.cc.flags.freeing) = false :=
    (congrArg Sending.ending hsending₂).trans hending₁
  have hfreed₂ : (w₂.freeCmd w.nextCmd).wire = w₂.wire :=
    Update.apply_wire w₂ (.log (.freeCmd w.nextCmd)) (by simp [wireParts])
  have hflags : (w₂.freeCmd w.nextCmd).cc.flags = w₂.cc.flags := rfl
  simp only [hfault₂, Option.isSome_none, Bool.false_eq_true, if_false, if_true, hflags, hending₂,
    lt_self_iff_false, decide_false, Bool.or_self]
  have halloc : World.wire { w₁ with uv := w₁.uv.reqAlloc.2 } = w₁.wire := rfl
  rw [hfreed₂, hwrite, halloc, hwire]

end World

/-! ### Preservation -/

/-- A new command on its own stream. -/
theorem Wire.Ok.send {v : Wire} (h : v.Ok) {h₁ : Handle} {subMode : Bool} {argv : List Bytes}
    (fn : Option Fn) (htarget : (if subMode then v.subStream else v.stream) = some h₁)
    (hfits : (redisFormatCommandArgv argv).length < 2 ^ 31) :
    Wire.Ok { v with
      written := v.written ++ [(h₁, redisFormatCommandArgv argv)]
      requests := v.requests ++ if subMode then [] else [(argv, fn)] } where
  unconnected hnone := by
    obtain ⟨hsub, -, -⟩ := h.unconnected hnone
    cases subMode with
    | true => rw [if_pos rfl, hsub] at htarget; cases htarget
    | false => rw [if_neg (by decide), hnone] at htarget; cases htarget
  apart := h.apart
  carries := by
    have hcarries := h.carries
    cases subMode with
    | true =>
      -- the frame goes to the other stream
      have hother : v.stream ≠ some h₁ := fun heq => h.apart h₁ heq htarget
      simpa [Wire.bytes, hother] using hcarries
    | false =>
      have hown : v.stream = some h₁ := htarget
      simpa [Wire.bytes, hown] using hcarries
  fits c hc := by
    cases subMode with
    | true => exact h.fits c (by simpa using hc)
    | false =>
      rcases List.mem_append.mp hc with hc | hc
      · exact h.fits c hc
      · rw [List.mem_singleton.mp hc]
        exact hfits

/-- The connection is made when nothing has been written. -/
theorem Wire.Ok.connect {v : Wire} (h : v.Ok) (hnone : v.stream = none) {h₁ h₂ : Handle}
    (hne : h₁ ≠ h₂) : Wire.Ok { v with stream := some h₁, subStream := some h₂ } where
  unconnected hsome := by cases hsome
  apart h' heq hsub := hne ((Option.some.inj heq).trans (Option.some.inj hsub).symm)
  carries := by
    obtain ⟨-, hwritten, hrequests⟩ := h.unconnected hnone
    simp [Wire.bytes, hwritten, hrequests]
  fits := h.fits

theorem luaClientConnect_wire (w : World) : w.luaClientConnect.wire = w.wire ∨
    w.luaClientConnect.wire =
      { w.wire with stream := some w.uv.nextHandle, subStream := some (w.uv.nextHandle + 1) } := by
  unfold World.luaClientConnect
  split
  · exact .inl rfl
  · right
    dsimp only
    rw [(World.uvPipeConnect_touches _ _).wire rfl, (World.uvPipeConnect_touches _ _).wire rfl]
    exact Update.apply_wire _ (.log (.connect _ _)) (by simp [wireParts])

/-! ### What the server reads -/

theorem length_lt_frame (argv : List Bytes) : argv.length < (redisFormatCommandArgv argv).length := by
  have hparts : argv.length ≤
      (argv.map fun arg => 36 :: decimal arg.length ++ crlf ++ arg ++ crlf).flatten.length := by
    induction argv with
    | nil => exact Nat.zero_le _
    | cons arg argv ih =>
      simp only [List.map_cons, List.flatten_cons, List.length_append, List.length_cons] at ih ⊢
      omega
  simp only [redisFormatCommandArgv, List.length_append, List.length_cons]
  omega

/-- The frames are the commands, and nothing else. -/
theorem decodes_frames {commands : List (List Bytes)}
    (hfits : ∀ argv ∈ commands, (redisFormatCommandArgv argv).length < 2 ^ 31) :
    Decodes item idle (commands.flatMap redisFormatCommandArgv) (commands.map request)
      (.blocked idle []) := by
  -- a frame is the encoding of an array of bulk strings
  have hframes : encodeAll (commands.map fun argv => .array (argv.map .bulk)) =
      commands.flatMap redisFormatCommandArgv := by
    induction commands with
    | nil => rfl
    | cons argv commands ih =>
      rw [List.map_cons, List.flatMap_cons, ← ih fun a ha => hfits a (List.mem_cons_of_mem _ ha),
        ← encode_frame, ← Resp.encodeAll_append, List.singleton_append]
  have hbulks : ∀ args : List Bytes, (∀ arg ∈ args, arg.length < 2 ^ 63) →
      AllWellFormed 1 (args.map .bulk) := by
    intro args hargs
    induction args with
    | nil => trivial
    | cons arg args ih =>
      exact ⟨hargs arg List.mem_cons_self, ih fun a ha => hargs a (List.mem_cons_of_mem _ ha)⟩
  have hwf : AllWellFormed 0 (commands.map fun argv => .array (argv.map .bulk)) := by
    clear hframes
    induction commands with
    | nil => trivial
    | cons argv commands ih =>
      have hframe := hfits argv List.mem_cons_self
      have hcount := length_lt_frame argv
      refine ⟨⟨by decide, by rw [List.length_map]; omega, hbulks argv fun arg harg => ?_⟩,
        ih fun a ha => hfits a (List.mem_cons_of_mem _ ha)⟩
      have hlength := length_le_frame harg
      omega
  have hreplies : toReplies (commands.map fun argv => .array (argv.map .bulk)) =
      commands.map request := by
    rw [Resp.toReplies_eq_map, List.map_map]
    refine List.map_congr_left fun argv _ => ?_
    simp [Resp.toReply, Resp.toReplies_eq_map, request, Function.comp_def]
  have hdecodes := Resp.decodes_encodeAll hwf
  rwa [hframes, hreplies] at hdecodes

/-- A server reads the commands off the stream. -/
theorem Wire.Ok.decodes {v : Wire} (h : v.Ok) :
    Decodes item idle v.bytes ((v.requests.map Prod.fst).map request) (.blocked idle []) := by
  rw [h.carries]
  refine decodes_frames fun argv hargv => ?_
  obtain ⟨c, hc, rfl⟩ := List.mem_map.mp hargv
  exact h.fits c hc

/-! ## Conversations -/

section Conversation
variable {σ : Type}

/-- The server keeps to the protocol: what has arrived on the command stream begins its replies
    to the commands written so far, and well-formed events arrive on the other stream. -/
structure Server.Answers (S : Server σ) (w : World) : Prop where
  replies : ∀ commands e, Decodes item idle w.wire.bytes (commands.map request) e →
    received false w.trace <+: encodeAll (S.replies commands)
  events : ∃ ms, AllWellFormed 0 ms ∧ received true w.trace <+: encodeAll ms

/-- A step of a conversation: the sends of the client succeed on its one connection, a frame and
    its terminator are counted by an `int`, and the streams do not cut into each other's
    replies. -/
def Converses (S : Server σ) (w : World) (e : Event) (w' : World) : Prop :=
  (Promised w' → Succeeds w e w') ∧ Uncut w e w' ∧ S.Answers w' ∧
    match e with
    | .api .connect => w.cc.stream = none
    | .api (.command args _) => ∀ argv timers, collect args = .ok argv timers →
        (redisFormatCommandArgv argv).length + 1 < 2 ^ 31
    | _ => True

/-- The call a command and its reply lead to. -/
def resultCall (p : (List Bytes × Option Fn) × Resp) : Option (Site × Fn × List LuaValue) :=
  p.1.2.map fun f => (.reply, f, [.nil, pushReply p.2.toReply])

/-- The calls when each command gets its own reply. -/
def Server.resultCalls (S : Server σ) (cs : List (List Bytes × Option Fn)) :
    List (Site × Fn × List LuaValue) :=
  (cs.zip (S.replies (cs.map Prod.fst))).filterMap resultCall

/-- Every command gets the reply to itself. -/
structure Conversed (S : Server σ) (w : World) : Prop where
  /-- the server reads the commands as they were issued -/
  heard : Decodes item idle w.wire.bytes (((requests w.trace).map Prod.fst).map request)
    (.blocked idle [])
  /-- the first commands have their results, the others wait -/
  called : ∃ n, n + w.cc.commandCbList.length = (requests w.trace).length ∧
    commandCalls w.trace = S.resultCalls ((requests w.trace).take n)
  /-- no reply that has arrived is left -/
  complete : w.fault = none → w.stack = [] →
    received false w.trace = encodeAll (S.replies ((requests w.trace).map Prod.fst)) →
    w.cc.commandCbList = [] ∧ commandCalls w.trace = S.resultCalls (requests w.trace)

/-! ### One stream -/

theorem answered_eq_messages (trace : List Obs) :
    answered trace = messages false (reports trace) := by
  induction trace with
  | nil => rfl
  | cons o trace ih =>
    cases o with
    | reply subMode r => cases subMode <;> simpa [answered, reports, messages] using ih
    | feedError subMode message => simpa [answered, reports, messages] using ih
    | _ => simpa [answered, reports, messages] using ih

/-- The replies dispatched are those that have arrived, up to what the reply loop has not got to
    yet. -/
theorem answered_decodes {ignore : Bool} {es : List Event} {w : World} {sent : Bool → List Resp}
    (hrun : Transition.RunsUnder World.step Uncut (World.new ignore) es w)
    (hwf : ∀ m, AllWellFormed 0 (sent m)) (hsent : ∀ m, received m w.trace <+: encodeAll (sent m)) :
    ∃ rest e, Decodes item idle (received false w.trace) (answered w.trace ++ rest) e ∧
      (w.fault = none → w.stack = [] → rest = []) := by
  obtain ⟨pending, e, hreceives, hdrains⟩ := run_reading hrun.run_eq (reading_new ignore)
  -- each stream by itself ends between two replies
  have halone : ∀ m, ∃ os stack rest,
      Decodes item idle (symbols m (chunks w.trace)) os (.blocked stack rest) := by
    intro m
    obtain ⟨ys, hys⟩ := hsent m
    have hall := Resp.decodes_encodeAll (hwf m)
    rw [← hys] at hall
    exact hall.blocked_of_append item_lawful
  obtain ⟨-, owner, hown, hother, -⟩ := hreceives.separate item_lawful item_idle
    (alternates_of_uncut hrun) halone
  -- so the shared reader is never in the middle of a reply of the other stream
  have hdecodes : ∃ e, Decodes item idle (received false w.trace)
      (messages false (reports w.trace ++ pending)) e := by
    by_cases howner : owner = some false
    · exact ⟨_, hown false howner⟩
    · exact ⟨_, hother false howner⟩
  obtain ⟨e', he'⟩ := hdecodes
  rw [Decoder.messages_append, ← answered_eq_messages] at he'
  refine ⟨_, e', he', fun hfault hstack => ?_⟩
  have hd := hdrains (by simp [hfault])
  rw [World.reading, hstack] at hd
  rw [hd.1]
  rfl

/-- The replies dispatched begin what was sent. -/
theorem answered_prefix {ignore : Bool} {es : List Event} {w : World} {sent : Bool → List Resp}
    (hrun : Transition.RunsUnder World.step Uncut (World.new ignore) es w)
    (hwf : ∀ m, AllWellFormed 0 (sent m)) (hsent : ∀ m, received m w.trace <+: encodeAll (sent m)) :
    answered w.trace <+: toReplies (sent false) := by
  obtain ⟨rest, e, hdecodes, -⟩ := answered_decodes hrun hwf hsent
  obtain ⟨ys, hys⟩ := hsent false
  have hall := Resp.decodes_encodeAll (hwf false)
  rw [← hys] at hall
  exact (List.prefix_append _ _).trans (hdecodes.mono item_lawful hall)

/-! ### Commands and requests -/

/-- A command is a request with the identifier of its record. -/
theorem issued_requests (trace : List Obs) :
    (issued trace).map Prod.snd = (requests trace).map Prod.snd := by
  induction trace with
  | nil => rfl
  | cons o trace ih =>
    cases o with
    | command kind argv timers fn cb =>
      cases hpending : kind.pending <;> simpa [issued, requests, hpending] using ih
    | _ => simpa [issued, requests] using ih

theorem length_issued (trace : List Obs) : (issued trace).length = (requests trace).length := by
  have hlength := congrArg List.length (issued_requests trace)
  rwa [List.length_map, List.length_map] at hlength

/-- Only the callbacks matter to the calls. -/
theorem matchedCalls_eq {cs : List (Nat × Option Fn)} {ds : List (List Bytes × Option Fn)}
    (h : cs.map Prod.snd = ds.map Prod.snd) (ms : List Resp) :
    matchedCalls cs (toReplies ms) = (ds.zip ms).filterMap resultCall := by
  induction cs generalizing ds ms with
  | nil =>
    obtain rfl : ds = [] := List.map_eq_nil_iff.mp h.symm
    rfl
  | cons c cs ih =>
    cases ds with
    | nil => cases h
    | cons d ds =>
      obtain ⟨hhead, htail⟩ := List.cons.inj h
      cases ms with
      | nil => rfl
      | cons m ms =>
        have hcall : replyCall c m.toReply = resultCall (d, m) := by
          rw [replyCall, resultCall, hhead]
        have hrest := ih htail ms
        simp only [matchedCalls, toReplies, List.zip_cons_cons, List.filterMap_cons] at hrest ⊢
        rw [hcall, hrest]

/-! ### The invariant -/

/-- What holds all along a conversation. -/
structure Conversing (S : Server σ) (ignore : Bool) (w : World) : Prop where
  run : ∃ es, Transition.RunsUnder World.step Uncut (World.new ignore) es w
  matching : w.matching.Ok
  wire : w.wire.Ok
  promised : Promised w
  answers : S.Answers w

variable {S : Server σ} {ignore : Bool} {w : World}

/-- The replies are those of the server to the commands. -/
theorem answered_replies
    (hrun : ∃ es, Transition.RunsUnder World.step Uncut (World.new ignore) es w) (hwire : w.wire.Ok)
    (hanswers : S.Answers w) :
    ∃ sent : Bool → List Resp, sent false = S.replies ((requests w.trace).map Prod.fst) ∧
      (∀ m, AllWellFormed 0 (sent m)) ∧ (∀ m, received m w.trace <+: encodeAll (sent m)) ∧
      answered w.trace <+: toReplies (S.replies ((requests w.trace).map Prod.fst)) := by
  obtain ⟨es, hrun⟩ := hrun
  obtain ⟨ms, hms, hevents⟩ := hanswers.events
  have hwf : ∀ m, AllWellFormed 0 (bif m then ms else S.replies ((requests w.trace).map Prod.fst)) := by
    intro m
    cases m with
    | true => exact hms
    | false => exact S.wellFormed_repliesFrom _ _
  have hsent : ∀ m, received m w.trace <+:
      encodeAll (bif m then ms else S.replies ((requests w.trace).map Prod.fst)) := by
    intro m
    cases m with
    | true => exact hevents
    | false => exact hanswers.replies _ _ hwire.decodes
  exact ⟨_, rfl, hwf, hsent, answered_prefix hrun hwf hsent⟩

/-- A server that keeps to the protocol keeps the promise the matching relies on. -/
theorem promised_of_answers
    (hrun : ∃ es, Transition.RunsUnder World.step Uncut (World.new ignore) es w) (hwire : w.wire.Ok)
    (hanswers : S.Answers w) : Promised w := by
  obtain ⟨-, -, -, -, hbegins⟩ := answered_replies hrun hwire hanswers
  rw [Resp.toReplies_eq_map] at hbegins
  constructor
  · have hle := hbegins.length_le
    rwa [List.length_map, Server.replies, S.length_repliesFrom, List.length_map,
      ← length_issued] at hle
  · intro r hr
    obtain ⟨m, -, rfl⟩ := List.mem_map.mp (hbegins.subset hr)
    exact readable_toReply m

theorem Update.apply_answered (w : World) (u : Update) (hu : u.part ∉ [.obs .reply]) :
    answered (u.apply w).trace = answered w.trace := by
  cases u with
  | log o => cases o <;> simp [apply, World.log, answered] at hu ⊢
  | names p t => cases p <;> rfl
  | _ => rfl

/-- A command does not break the promise. -/
theorem promised_command (h : Promised w) (args : List LuaArg) (env : SendEnv) :
    Promised (w.luaClientCommand args env) := by
  have htouches := w.luaClientCommand_touches args env
  have hanswered : answered (w.luaClientCommand args env).trace = answered w.trace :=
    htouches.same (f := fun w => answered w.trace) Update.apply_answered rfl
  have hissued : (issued w.trace).length ≤ (issued (w.luaClientCommand args env).trace).length := by
    obtain ⟨more, hmore⟩ := htouches.trace
    rw [← hmore, issued_append, List.length_append]
    exact Nat.le_add_right _ _
  exact ⟨hanswered ▸ h.1.trans hissued, hanswered ▸ h.2⟩

/-- One step keeps the wire. -/
theorem step_wire {e : Event} {w' : World} (h : Conversing S ignore w) (hstep : w.step e = some w')
    (hconv : Converses S w e w') : w'.wire.Ok := by
  obtain ⟨hsucceeds, -, -, hcond⟩ := hconv
  obtain ⟨hfault, hs⟩ := step_cases hstep
  cases hs with
  -- only a command puts bytes on the wire, and only connect() starts a new one
  | api c _ =>
    cases c with
    | connect =>
      change w.luaClientConnect.wire.Ok
      rcases luaClientConnect_wire w with heq | heq
      · exact heq.symm ▸ h.wire
      · exact heq.symm ▸ h.wire.connect hcond (Nat.ne_of_lt (Nat.lt_succ_self _))
    | command args env =>
      change (w.luaClientCommand args env).wire.Ok
      have hsucceeds := (hsucceeds (promised_command h.promised args env)).2
      cases hcollect : collect args with
      | raise | fault =>
        have hrefused : Touches _ w (w.luaClientCommand args env) :=
          w.luaClientCommand_refused env (by simp [hcollect])
        exact (hrefused.wire rfl).symm ▸ h.wire
      | ok argv timers =>
        obtain ⟨h₁, htarget, hwire⟩ :=
          World.luaClientCommand_wire hcollect hfault (hsucceeds argv timers hcollect).2
        have hfits := Nat.lt_of_succ_lt (hcond argv timers hcollect)
        have hsent := h.wire.send (callbackOf args) htarget hfits
        rw [hwire, Kind.pending]
        generalize (classify (argv.headD [])).subMode = subMode at hsent ⊢
        cases subMode <;> exact hsent
    | on event fn => exact ((w.api_touches (.on event fn)).wire rfl).symm ▸ h.wire
    | disconnect => exact ((w.api_touches .disconnect).wire rfl).symm ▸ h.wire
    | exit => exact ((w.api_touches .exit).wire rfl).symm ▸ h.wire
  | @resume f rest _ _ =>
    have hsame : (World.resume { w with stack := rest } f).wire = w.wire :=
      (World.resume_touches _ f).wire (by cases f <;> rfl)
    exact hsame.symm ▸ h.wire
  | _ => exact ((step_touches hstep).wire rfl).symm ▸ h.wire

theorem step_conversing {e : Event} {w' : World} (h : Conversing S ignore w)
    (hstep : w.step e = some w') (hconv : Converses S w e w') : Conversing S ignore w' := by
  obtain ⟨es, hrun⟩ := h.run
  have hrun' := hrun.snoc hstep hconv.2.1
  have hwire' := step_wire h hstep hconv
  have hpromised' := promised_of_answers ⟨_, hrun'⟩ hwire' hconv.2.2.1
  exact ⟨⟨_, hrun'⟩, step_matching h.matching hstep (hconv.1 hpromised'), hwire', hpromised',
    hconv.2.2.1⟩

theorem conversing_new (S : Server σ) (ignore : Bool) : Conversing S ignore (World.new ignore) where
  run := ⟨[], .nil⟩
  matching := matching_new ignore
  wire := wire_new ignore
  promised := ⟨Nat.le_refl _, fun _ hr => absurd hr List.not_mem_nil⟩
  answers := ⟨fun _ _ _ => List.nil_prefix, [], trivial, List.nil_prefix⟩

/-- Only so many entries meet a list that was cut. -/
theorem zip_take {α β : Type} (n : Nat) (xs : List α) (ys : List β) :
    xs.zip (ys.take n) = (xs.take n).zip (ys.take n) := by
  have hle : (xs.zip (ys.take n)).length ≤ n := by
    rw [List.length_zip, List.length_take]
    omega
  have htake : (xs.zip (ys.take n)).take n = (xs.take n).zip ((ys.take n).take n) :=
    List.take_zipWith
  rwa [List.take_of_length_le hle, List.take_take, Nat.min_self] at htake

/-! ## The result -/

/-- **The client and the server agree.**  In every conversation each command's callback is called
    with the server's reply to this command, in order, and no reply that has arrived is lost. -/
theorem conversation {es : List Event}
    (hrun : Transition.RunsUnder World.step (Converses S) (World.new ignore) es w) :
    Conversed S w := by
  have h := hrun.invariant (I := Conversing S ignore)
    (fun _ _ _ h hstep hconv => step_conversing h hstep hconv) (conversing_new S ignore)
  obtain ⟨sent, hsentFalse, hwf, hsent, hbegins⟩ := answered_replies h.run h.wire h.answers
  -- calls and replies are matched already; the replies are the server's
  have hcalls : ∀ n, answered w.trace =
      toReplies ((S.replies ((requests w.trace).map Prod.fst)).take n) →
      commandCalls w.trace = S.resultCalls ((requests w.trace).take n) := by
    intro n hn
    have hmatched : commandCalls w.trace = matchedCalls (issued w.trace) (answered w.trace) :=
      h.matching.calls
    rw [hmatched, hn, matchedCalls_eq (issued_requests w.trace), Server.resultCalls, List.map_take,
      Server.replies, Server.replies, S.repliesFrom_take, zip_take]
  have hlist : w.cc.commandCbList.length =
      (requests w.trace).length - (answered w.trace).length := by
    have hlist : w.cc.commandCbList = w.matching.pending.map fun c => .heap c.1 := h.matching.list
    rw [hlist, List.length_map, Matching.pending, List.length_drop, ← length_issued]
    rfl
  refine ⟨?_, ⟨(answered w.trace).length, ?_, hcalls _ ?_⟩, fun hfault hstack hall => ?_⟩
  · exact h.wire.decodes
  · have hle := h.promised.1
    rw [length_issued] at hle
    omega
  · rw [Resp.toReplies_eq_map, List.map_take, ← Resp.toReplies_eq_map]
    exact List.prefix_iff_eq_take.mp hbegins
  · -- everything that was sent has been decoded, and the loop has nothing left
    obtain ⟨es', hrun'⟩ := h.run
    obtain ⟨rest, e, hdecodes, hdrained⟩ := answered_decodes hrun' hwf hsent
    rw [hdrained hfault hstack, List.append_nil, hall, ← hsentFalse] at hdecodes
    have hanswered := (hdecodes.det (Resp.decodes_encodeAll (hwf false))).1
    have hlength := congrArg List.length hanswered
    rw [hsentFalse, Resp.toReplies_eq_map, List.length_map, Server.replies, S.length_repliesFrom,
      List.length_map] at hlength
    have htake := hcalls (requests w.trace).length (by
      rw [hanswered, hsentFalse, List.take_of_length_le]
      rw [Server.replies, S.length_repliesFrom, List.length_map])
    rw [List.take_length] at htake
    exact ⟨List.length_eq_zero_iff.mp (by omega), htake⟩

end Conversation

/-! ## A conversation -/

/-- A server with a counter. -/
def counterExec (n : Nat) (argv : List Bytes) : Nat × Resp :=
  if argv = [ascii "incr"] then ((n + 1) % 1000, .integer ((n + 1) % 1000 : Nat))
  else (n, .status (ascii "PONG"))

theorem counterExec_wellFormed (n : Nat) (argv : List Bytes) :
    (counterExec n argv).2.WellFormed 0 := by
  unfold counterExec
  split
  · simp only [Resp.WellFormed]
    omega
  · simp only [Resp.WellFormed]
    decide

def counter : Server Nat := ⟨0, counterExec, counterExec_wellFormed⟩

/-- Two increments, with a reply that comes in two pieces. -/
def counterRun : List Event :=
  [.api .connect, .connected 0 0, .connected 0 0,
   .api (.command [.string (ascii "incr"), .function 1] ⟨0, false⟩),
   .api (.command [.string (ascii "ping")] ⟨0, false⟩), .written 0 0 0,
   .api (.command [.string (ascii "incr"), .function 2] ⟨0, false⟩), .written 0 0 0,
   .read 0 (ascii ":1\r\n+PO") .noref, .resume, .ret true, .resume, .written 0 0 0,
   .read 0 (ascii "NG\r\n:2\r\n") .noref, .resume, .resume, .ret true, .resume]

/-- The subscription stream is silent, and the replies are those of the server. -/
def counterCheck (w : World) (e : Event) : Bool :=
  successCheck w e &&
    (match w.step e with
    | some w' =>
      decide (w'.wire.bytes = ((requests w'.trace).map Prod.fst).flatMap redisFormatCommandArgv) &&
        (requests w'.trace).all (fun c => decide ((redisFormatCommandArgv c.1).length < 2 ^ 31)) &&
        decide (received true w'.trace = []) &&
        (received false w'.trace).isPrefixOf
          (encodeAll (counter.replies ((requests w'.trace).map Prod.fst)))
    | none => false) &&
    match e with
    | .api .connect => decide (w.cc.stream = none)
    | .api (.command args _) =>
      match collect args with
      | .ok argv _ => decide ((redisFormatCommandArgv argv).length + 1 < 2 ^ 31)
      | _ => true
    | .read h _ _ => decide (received (!decide (w.cc.subStream = some h)) w.trace = [])
    | _ => true

theorem request_injective : Function.Injective (List.map request) := by
  refine List.map_injective_iff.mpr fun argv argv' h => ?_
  simp only [request, Reply.array.injEq] at h
  exact List.map_injective_iff.mpr (fun _ _ h => Reply.string.inj h) h

theorem converses_of_check {w w' : World} {e : Event} (h : counterCheck w e = true)
    (hstep : w.step e = some w') : Converses counter w e w' := by
  simp only [counterCheck, hstep, Bool.and_eq_true, decide_eq_true_eq, List.all_eq_true,
    List.isPrefixOf_iff_prefix] at h
  obtain ⟨⟨hsucceeds, ⟨⟨hbytes, hfits⟩, hevents⟩, hreplies⟩, hcond⟩ := h
  refine ⟨fun _ => succeeds_of_check hsucceeds hstep, ?_, ⟨?_, [], trivial, ?_⟩, ?_⟩
  · cases e with
    | read h₁ data cb => exact fun _ _ => ⟨[], trivial, of_decide_eq_true hcond⟩
    | _ => trivial
  · -- the server cannot have read anything else
    intro commands e hdecodes
    have hframes : ∀ argv ∈ (requests w'.trace).map Prod.fst,
        (redisFormatCommandArgv argv).length < 2 ^ 31 := by
      intro argv hargv
      obtain ⟨c, hc, rfl⟩ := List.mem_map.mp hargv
      exact hfits c hc
    rw [hbytes] at hdecodes
    rw [request_injective (hdecodes.det (decodes_frames hframes)).1]
    exact hreplies
  · rw [hevents]
    exact List.nil_prefix
  · cases e with
    | api c =>
      cases c with
      | connect => simpa using hcond
      | command args env =>
        intro argv timers hcollect
        simpa [hcollect] using hcond
      | _ => trivial
    | _ => trivial

/-- Both increments get their numbers. -/
theorem conversation_counter :
    ∃ w, runs (World.new true) counterRun = some w ∧ Conversed counter w ∧
      commandCalls w.trace =
        [(.reply, 1, [.nil, .integer 1]), (.reply, 2, [.nil, .integer 2])] := by
  have hrun : (Transition.runChecked World.step counterCheck (World.new true) counterRun).map
      (fun w => decide (w.fault = none) && w.stack.isEmpty &&
        decide (requests w.trace =
          [([ascii "incr"], some 1), ([ascii "ping"], none), ([ascii "incr"], some 2)]) &&
        decide (received false w.trace = ascii ":1\r\n+PONG\r\n:2\r\n")) = some true := by
    decide +kernel
  obtain ⟨w, hw, hstate⟩ := Option.map_eq_some_iff.mp hrun
  simp only [Bool.and_eq_true, decide_eq_true_eq, List.isEmpty_iff] at hstate
  obtain ⟨⟨⟨hfault, hstack⟩, hrequests⟩, hreceived⟩ := hstate
  have hunder := Transition.runsUnder_of_checked (C := Converses counter)
    (fun _ _ _ h hstep => converses_of_check h hstep) hw
  have hconversed := conversation hunder
  refine ⟨w, hunder.run_eq, hconversed, ?_⟩
  have hcalls := (hconversed.complete hfault hstack (by rw [hreceived, hrequests]; rfl)).2
  have hone : luaInteger 1 = .integer 1 := congrArg LuaValue.integer (by decide +kernel)
  have htwo : luaInteger 2 = .integer 2 := congrArg LuaValue.integer (by decide +kernel)
  rw [hcalls, hrequests, ← hone, ← htwo]
  rfl

end CrazySnail
