import CrazySnail.Library.FreeList
import CrazySnail.Verified.Sending

/-! # The pool of request blocks

`Holding` says that no request block has two users: it is free, it holds a request that libuv
has not completed, a function is at work on it, or it is among the blocks `ts` of timers.
Connecting, writing and the completion of a request keep it, whatever the timers are.
-/

namespace CrazySnail

open FreeListPool World

/-- The request blocks are a pool of the library. -/
def Uv.pool (u : Uv) : FreeList := ⟨u.reqFreelist, u.nextBlock⟩

theorem Uv.reqAlloc_pool (u : Uv) :
    u.reqAlloc.1 = u.pool.alloc.1 ∧ u.reqAlloc.2.pool = u.pool.alloc.2 ∧
      u.reqAlloc.2.requests = u.requests ∧ u.reqAlloc.2.timers = u.timers := by
  unfold Uv.reqAlloc FreeList.alloc Uv.pool
  cases u.reqFreelist <;> exact ⟨rfl, rfl, rfl, rfl⟩

/-- Every block has one user at most: a function that is running, libuv, or a timer. -/
def World.Holding (w : World) (held ts : List Block) : Prop :=
  w.uv.pool.Exclusive (held ++ w.uv.requests.map Request.block ++ ts)

/-- The parts that matter to the pool. -/
def poolParts : List Part := [.reqAlloc, .reqFree, .request .connect, .request .write, .finish]

theorem Update.apply_pool (w : World) (u : Update) (hu : u.part ∉ poolParts) :
    (u.apply w).uv.pool = w.uv.pool ∧ (u.apply w).uv.requests = w.uv.requests := by
  cases u with
  | names p t => cases p <;> exact ⟨rfl, rfl⟩
  | request r => cases hk : r.kind <;> simp [poolParts, hk] at hu
  | reqAlloc | reqFree | finish => simp [poolParts] at hu
  | _ => exact ⟨rfl, rfl⟩

namespace World
variable {w : World} {held ts : List Block} {b : Block}

theorem Holding.keep {ks : List Part} {w' : World} (h : w.Holding held ts) (ht : Touches ks w w')
    (hks : ks.all (fun k => decide (k ∉ poolParts)) = true) : w'.Holding held ts := by
  refine ht.keeps (I := fun v => v.Holding held ts) (fun v u hu hv => ?_) hks h
  obtain ⟨hpool, hrequests⟩ := u.apply_pool v hu
  unfold Holding
  rw [hpool, hrequests]
  exact hv

/-! ## One block -/

theorem Holding.reqAlloc (h : w.Holding [] ts) :
    { w with uv := w.uv.reqAlloc.2 }.Holding [w.uv.reqAlloc.1] ts := by
  obtain ⟨hblock, hpool, hrequests, -⟩ := w.uv.reqAlloc_pool
  simp only [Holding, hblock, hpool, hrequests]
  exact h.alloc

theorem Holding.reqFree (h : w.Holding [b] ts) : (w.reqFree b).Holding [] ts := h.release

theorem Holding.lose (h : w.Holding [b] ts) : w.Holding [] ts := FreeList.Exclusive.lose h

/-- libuv takes a request. -/
theorem Holding.requested {r : Request} (h : w.Holding [r.block] ts) :
    (w.requested r).Holding [] ts := by
  have hperm : ([r.block] ++ w.uv.requests.map Request.block ++ ts).Perm
      ([] ++ (w.uv.requests ++ [r]).map Request.block ++ ts) := by
    rw [List.map_append, List.map_singleton, List.nil_append]
    exact (List.perm_append_singleton _ _).symm.append_right ts
  exact h.perm hperm

/-- libuv has completed a request. -/
theorem Holding.finish (h : w.Holding [] ts) {i : Nat} {req : Request}
    (hreq : w.uv.requests[i]? = some req) : (w.finish i).Holding [req.block] ts := by
  obtain ⟨hi, rfl⟩ := List.getElem?_eq_some_iff.mp hreq
  have hperm := ((List.getElem_cons_eraseIdx_perm hi).map Request.block).symm.append_right ts
  exact h.perm hperm

/-! ## The functions of the client -/

theorem Holding.uvPipeConnect (h : w.Holding [] ts) (h₁ : Handle) :
    (w.uvPipeConnect h₁).Holding [] ts :=
  h.reqAlloc.requested (r := ⟨w.uv.reqAlloc.1, .connect, h₁, none, 0⟩)

theorem Holding.luaClientConnect (h : w.Holding [] ts) : w.luaClientConnect.Holding [] ts := by
  unfold World.luaClientConnect
  split
  · exact h
  · refine Holding.uvPipeConnect (Holding.uvPipeConnect ?_ _) _
    exact h

theorem Holding.failSend (h : w.Holding [] ts) (error : LuaValue) :
    (w.failSend error).Holding [] ts := h.keep (failSend_touches w error) rfl

/-- The block of a write that failed is given back; one that was accepted stays libuv's. -/
theorem Holding.sendCommand (h : w.Holding [] ts) {subMode : Bool} (frame : Bytes)
    (owner : Option Nat) (buf : Nat) {error : Nat}
    (hending : w.sending.ending = true → ¬w.sending.Accepts subMode error) :
    (w.sendCommand subMode frame owner buf error).Holding [] ts := by
  unfold World.sendCommand
  split
  next hconn =>
    have halloc := h.reqAlloc
    have hreqAlloc : Touches [.reqAlloc] w { w with uv := w.uv.reqAlloc.2 } :=
      .of [.reqAlloc] rfl rfl
    have hsending := hreqAlloc.sending rfl
    have hwritten := uvWrite_written { w with uv := w.uv.reqAlloc.2 } subMode w.uv.reqAlloc.1 frame
      owner buf error
    generalize w.uv.reqAlloc = alloc at halloc hsending hwritten ⊢
    obtain ⟨req, uv⟩ := alloc
    dsimp only at halloc hsending hwritten ⊢
    generalize ({ w with uv } : World).uvWrite _ req frame owner buf error = result at hwritten ⊢
    cases hwritten with
    | stops hfault ht =>
      rw [if_pos hfault]
      exact (halloc.keep ht rfl).lose
    | @refused r v _ hneg ht =>
      have hheld : v.Holding [req] ts := halloc.keep ht rfl
      split
      · exact hheld.lose
      · simp only [decide_eq_true hneg, Bool.or_true, if_true]
        have hne : r ≠ 0 := by omega
        rw [if_neg hne]
        exact hheld.reqFree.failSend _
    | @accepted h₁ s herror halive hclosing =>
      rw [hsending] at halive
      -- an accepted write while the client ends is excluded
      have hquiet : w.sending.ending = false := by
        by_contra hend
        exact hending (by simpa using hend) ⟨hconn, herror, s, halive, hclosing⟩
      generalize hv : (({ w with uv } : World).log (.uvWrite h₁ frame)).requested
        ⟨req, .write, h₁, owner, buf⟩ = v
      have hrequest : v.Holding [] ts := by
        rw [← hv]
        exact Holding.requested (r := ⟨req, .write, h₁, owner, buf⟩) halloc
      have hflags : (v.cc.flags.disconnecting || v.cc.flags.freeing) = false := by
        rw [← hv]
        exact hquiet
      split
      · exact hrequest
      · simp only [if_true, freeCmd, log, hflags, Bool.false_or]
        exact hrequest
  · refine Holding.failSend ?_ _
    exact h

theorem Holding.luaClientCommand (h : w.Holding [] ts) {args : List LuaArg} {env : SendEnv}
    (hending : ∀ argv timers, collect args = .ok argv timers → w.sending.ending = true →
      ¬w.sending.Accepts (classify (argv.headD [])).subMode env.error) :
    (w.luaClientCommand args env).Holding [] ts := by
  cases hcollect : collect args with
  | raise | fault => exact h.keep (w.luaClientCommand_refused env (by simp [hcollect])) rfl
  | ok argv timers =>
    rw [luaClientCommand_eq hcollect]
    have hentered := w.entered_touches argv timers (callbackOf args) env.flags
    refine Holding.sendCommand (h.keep hentered rfl) _ _ _ ?_
    rw [hentered.sending rfl]
    exact hending argv timers hcollect

theorem Holding.onWrite {req : Request} (h : w.Holding [req.block] ts) (status readStart : Int) :
    (w.onWrite req status readStart).Holding [] ts := by
  have hfree : ({ w with uv := w.uv.setStream req.handle fun s =>
      { s with data := true } }.reqFree req.block).Holding [] ts := Holding.reqFree h
  have hshift : ∀ v : World, v.Holding [] ts → ∀ error,
      (v.shiftAndReport .writeError error id).Holding [] ts := fun v hv error =>
    hv.keep (v.shiftAndReport_touches .writeError error id (List.Subset.refl _) fun _ => .refl) rfl
  unfold World.onWrite
  dsimp only
  split
  · exact hshift _ hfree _
  · split
    · exact hshift _ hfree _
    · exact hfree

theorem Holding.onConnect {req : Request} (h : w.Holding [req.block] ts) (status : Int) :
    (w.onConnect req status).Holding [] ts := by
  have hfree := h.reqFree
  unfold World.onConnect
  dsimp only
  split
  · split
    · exact hfree.keep (pcall_touches _ .error _ _) rfl
    · exact hfree.keep (uvClose_touches _ _) rfl
  · generalize (if !(w.reqFree req.block).cc.streamFlags.stream then _ else _) = sf
    split
    · exact Holding.keep (w := { w.reqFree req.block with
        cc.streamFlags := sf, cc.flags.connected := true }) hfree (callHandler_touches _ .connect _ _) rfl
    · exact hfree

theorem Holding.connectCompleted {i : Nat} {req : Request} (h : w.Holding [] ts)
    (hreq : w.uv.requests[i]? = some req) (status : Int) :
    (((w.finish i).uvConnected req.handle status).onConnect req status).Holding [] ts := by
  have hconnected : ((w.finish i).uvConnected req.handle status).Holding [req.block] ts := by
    unfold uvConnected
    split <;> exact Holding.finish h hreq
  exact hconnected.onConnect status

end World

end CrazySnail
