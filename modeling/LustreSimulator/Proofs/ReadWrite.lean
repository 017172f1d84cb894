import LustreSimulator.Lib.Tiling
import LustreSimulator.Proofs.MapSpace
import LustreSimulator.Proofs.Prealloc
import LustreSimulator.ReadWrite

/-!
# `LustreSimulator.Proofs.ReadWrite`: an IO is served in full and notified once

`EndToEnd io s` is what holds in every state of an IO: the submitted pieces tile a prefix of its
range and are images under the mapping, and the issuer is notified exactly when the whole range
was submitted and every piece has completed.

`Core` is the part of the invariant that does not depend on where the issuing code is. Mapping a
piece and submitting it keep it (`Core.allocateBlock`, `Core.submitIoreq`). `Inv` adds what
holds at each place, and `Inv.step` is the step lemma.

A call of `Map` that runs into the next extent can make a later `Map` abort, so the calls of a run
must all be clear. A shift that leaves 64 bits makes the call itself abort, so they must also be in
range. A call is `Fit` when it is both. `readWrite_end_to_end` is the result, and
`readWrite_abort` an IO that aborts after a call that was not clear.
-/

set_option autoImplicit false

namespace LustreSimulator.FileSystem

open Lib

namespace Rw

/-- The ranges of the file that a list of pieces covers. -/
def ranges (ps : List (Nat × Ioreq)) : List (Nat × Nat) := ps.map fun p => (p.1, p.2.count)

/-- A piece is not empty, and the mapping sends its file range to the range of its `ioreq`. -/
def IsImage (fs : FileSystem) (fid : Nat) (p : Nat × Ioreq) : Prop :=
  0 < p.2.count ∧ ∀ k, k < p.2.count → Sends (fs.files fid).extents (p.1 + k) (p.2.off + k)

/-- What holds of an IO in every state. -/
structure EndToEnd (io : Io) (s : Rw) : Prop where
  /-- Nothing aborts. -/
  alive : s.state ≠ .aborted
  /-- The submitted pieces tile the IO up to some place, and the whole of it at the end. -/
  tiles : ∃ stop, stop ≤ io.off + io.count ∧ Tiles io.off (ranges s.submitted) stop ∧
    (s.state = .finish → stop = io.off + io.count)
  /-- The submitted pieces are images under the mapping. -/
  image : ∀ p ∈ s.submitted, IsImage s.fs io.fid p
  /-- Every submitted piece is in flight or has completed once. -/
  perm : (s.completed ++ s.inflight).Perm s.submitted
  /-- The issuer is notified once, when everything was submitted and has completed. -/
  notified : s.notified =
    if s.state = .finish ∧ s.inflight = [] then [io.issuer] else []

/-- The invariant of an IO, wherever the issuing code is. -/
structure Core (io : Io) (s : Rw) : Prop where
  ref : s.io = { io with ref := s.inflight.length, left := s.io.left }
  sound : ∀ i, Sound (s.fs.files i)
  mapped : io.cmd = .read → ∀ x, io.off ≤ x → x < io.off + io.count →
    Defines (s.fs.files io.fid).extents x
  tiles : Tiles io.off (ranges s.submitted) s.off
  rest : s.off + s.count = io.off + io.count
  left : s.submitted ≠ [] → s.io.left = s.count
  image : ∀ p ∈ s.submitted, IsImage s.fs io.fid p
  perm : (s.completed ++ s.inflight).Perm s.submitted

/-- A file system that maps more keeps the invariant. -/
theorem Core.set_fs {io : Io} {s : Rw} (h : Core io s) {fs : FileSystem}
    (hsound : ∀ i, Sound (fs.files i))
    (hsends : ∀ i x y, Sends (s.fs.files i).extents x y → Sends (fs.files i).extents x y) :
    Core io { s with fs := fs } where
  ref := h.ref
  sound := hsound
  mapped := by
    intro hread x hlo hhi
    obtain ⟨y, hy⟩ := defines_iff_sends.mp (h.mapped hread x hlo hhi)
    exact defines_iff_sends.mpr ⟨y, hsends _ x y hy⟩
  tiles := h.tiles
  rest := h.rest
  left := h.left
  image := fun p hp => ⟨(h.image p hp).1, fun k hk => hsends _ _ _ ((h.image p hp).2 k hk)⟩
  perm := h.perm

/-- The successful results of `Map`: a nonempty part of the request, mapped. -/
theorem mapped_image {fs fs' : FileSystem} {fid : Nat} {req out : Ioreq} {alloc : Bool}
    (hcount : 0 < req.count) (h : Mapped fs fid req alloc 0 out fs') :
    out.count ≤ req.count ∧ IsImage fs' fid (req.off, out) := by
  have hsends : ∀ k, k < out.count → Sends (fs'.files fid).extents (req.off + k) (out.off + k) := by
    intro k hk
    refine (h.sends fid _ _).mpr (Or.inr ⟨rfl, rfl, ⟨?_, ?_⟩, ?_⟩)
    · show req.off ≤ req.off + k
      omega
    · show req.off + k < req.off + out.count
      omega
    · show out.off + k = out.off + (req.off + k - req.off)
      omega
  cases h with
  | hit near hmem hlo hhi =>
      refine ⟨Nat.min_le_left _ _, ?_, hsends⟩
      show 0 < min req.count (near.count - (req.off - near.foff))
      omega
  | fresh clipped a t _ _ _ _ hle hpos hle' => exact ⟨hle'.trans hle, hpos, hsends⟩

/-- Mapping the next piece of an IO succeeds, when the call is clear. -/
theorem Core.mapPiece {io : Io} {s : Rw} (h : Core io s) (hcount : 0 < s.count)
    (hclear : Clear s.fs s.io.fid (s.io.newReq s.off s.count) (s.io.cmd = .write)) :
    ∃ req fs, s.mapPiece = .ok (req, fs) ∧ Core io { s with fs := fs } ∧
      req.count ≤ s.count ∧ IsImage fs io.fid (s.off, req) := by
  have hfid : s.io.fid = io.fid := by rw [h.ref]
  have hcmd : s.io.cmd = io.cmd := by rw [h.ref]
  have hpos : 0 < (s.io.newReq s.off s.count).count := hcount
  obtain ⟨rc, out, fs, hmap, hrc⟩ := map_total hpos (h.sound s.io.fid) hclear
  have hok : rc = 0 := by
    refine hrc ?_
    cases hc : io.cmd with
    | write => exact Or.inl (by simp [hcmd, hc])
    | read =>
        right
        rw [hfid]
        have hle := h.tiles.le
        have hrest := h.rest
        exact h.mapped hc s.off hle (by omega)
  subst hok
  have hcases := map_cases hpos hmap
  obtain ⟨hle, himg⟩ := mapped_image hpos hcases
  refine ⟨out, fs, ?_, ?_, hle, hfid ▸ himg⟩
  · unfold Rw.mapPiece
    rw [hmap]
    rfl
  · exact h.set_fs (hcases.sound hclear h.sound)
      fun i x y hxy => (hcases.sends i x y).mpr (Or.inl hxy)

/-- Submitting a piece keeps the invariant. -/
theorem Core.submitIoreq {io : Io} {s : Rw} (h : Core io s) {req : Ioreq}
    (hle : req.count ≤ s.count) (himg : IsImage s.fs io.fid (s.off, req)) :
    Core io (s.submitIoreq req) where
  ref := by
    show ({ s.io with ref := s.io.ref + 1, left := s.count - req.count } : Io) = _
    rw [h.ref]
    simp [Rw.submitIoreq]
  sound := h.sound
  mapped := h.mapped
  tiles := by
    show Tiles io.off (ranges (s.submitted ++ [(s.off, req)])) (s.off + req.count)
    unfold ranges
    rw [List.map_append]
    exact h.tiles.snoc req.count
  rest := by
    show s.off + req.count + (s.count - req.count) = io.off + io.count
    have := h.rest
    omega
  left := fun _ => rfl
  image := by
    intro p hp
    rcases List.mem_append.mp hp with hp | hp
    · exact h.image p hp
    · rw [List.mem_singleton] at hp
      subst hp
      exact himg
  perm := by
    show (s.completed ++ (s.inflight ++ [(s.off, req)])).Perm (s.submitted ++ [(s.off, req)])
    rw [← List.append_assoc]
    exact h.perm.append_right _

/-- The invariant of an IO: `Core`, what holds where the issuing code is, and the
notification. -/
structure Inv (io : Io) (s : Rw) : Prop where
  core : s.state ≠ .start → Core io s
  start : s.state = .start → s.submitted = [] ∧
    Core io { s with off := io.off, count := io.count, io := { s.io with left := io.count } }
  submit : ∀ req, s.state = .submit req →
    0 < s.count ∧ req.count ≤ s.count ∧ IsImage s.fs io.fid (s.off, req)
  loop : s.state = .loop → 0 < s.count
  finish : s.state = .finish → s.count = 0 ∧ s.submitted ≠ []
  alive : s.state ≠ .aborted
  notified : s.notified = if s.state = .finish ∧ s.inflight = [] then [io.issuer] else []

/-- A bound on the turns of the issuing code that are left. -/
def remaining (s : Rw) : Nat :=
  match s.state with
  | .start => s.io.count + 1
  | .submit _ => s.count
  | .loop => s.count
  | .finish => 0
  | .aborted => 0

/-- A call of `Map` that is clear, and whose shifts stay in 64 bits. -/
def Fit (fs : FileSystem) (fid : Nat) (req : Ioreq) (alloc : Bool) : Prop :=
  InRange fs fid req alloc ∧ Clear fs fid req alloc

/-- A fit call of `Map` that returns. -/
def FitStep (fs : FileSystem) (c : MapCall) (fs' : FileSystem) : Prop :=
  InRange fs c.fid c.req c.alloc ∧ ClearStep fs c fs'

/-- The condition on a step: the call of `Map` that it makes, if any, is fit. -/
def FitEvent (s : Rw) : RwEvent → Prop
  | .issue => ∀ req, s.nextReq = some req → Fit s.fs s.io.fid req (s.io.cmd = .write)
  | .completion _ => True
  | .other c => Fit s.fs c.fid c.req c.alloc

/-- A step of an IO whose calls of `Map` are fit. -/
def FitRwStep (s : Rw) (e : RwEvent) (s' : Rw) : Prop := FitEvent s e ∧ RwStep s e s'

/-- The position of the issuing code does not matter. -/
theorem Core.setState {io : Io} {s : Rw} (h : Core io s) (state : RwState) :
    Core io { s with state := state } :=
  ⟨h.ref, h.sound, h.mapped, h.tiles, h.rest, h.left, h.image, h.perm⟩

/-- The state machine maps a piece and waits. -/
theorem Core.allocateBlock {io : Io} {s : Rw} (h : Core io s) (hcount : 0 < s.count)
    (hclear : Clear s.fs s.io.fid (s.io.newReq s.off s.count) (s.io.cmd = .write))
    (hnotified : s.notified = []) :
    ∃ s', s.allocateBlock = .ok s' ∧ Inv io s' ∧ s'.remaining = s.count := by
  obtain ⟨req, fs, hmap, hcore, hle, himg⟩ := h.mapPiece hcount hclear
  refine ⟨{ s with fs := fs, state := .submit req }, ?_, ?_, rfl⟩
  · unfold Rw.allocateBlock
    rw [check_true hcount, ok_bind, hmap]
    rfl
  · exact {
      core := fun _ => hcore.setState _
      start := fun hs => nomatch hs
      submit := by
        intro req' hs
        cases hs
        exact ⟨hcount, hle, himg⟩
      loop := fun hs => nomatch hs
      finish := fun hs => nomatch hs
      alive := by simp
      notified := by simpa using hnotified }

/-- The issuing code works on the request of the issuer. -/
theorem Inv.io_eq {io : Io} {s : Rw} (h : Inv io s) :
    s.io.off = io.off ∧ s.io.count = io.count := by
  by_cases hs : s.state = .start
  · have := (h.start hs).2.ref
    simp only [Io.mk.injEq] at this
    exact ⟨this.2.2.1, this.2.2.2.1⟩
  · rw [(h.core hs).ref]
    exact ⟨rfl, rfl⟩

/-- The issuer is not notified before the last submission. -/
theorem Inv.not_notified {io : Io} {s : Rw} (h : Inv io s) (hne : s.state ≠ .finish) :
    s.notified = [] := by
  rw [h.notified, if_neg (fun hf => hne hf.1)]

/-- A turn that submits a piece, and maps the next one if there is one. -/
theorem Inv.issue_submit {io : Io} {s : Rw} {req : Ioreq} (h : Inv io s)
    (hs : s.state = .submit req) (hclear : FitEvent s .issue) :
    ∃ s', s.issue = .ok s' ∧ Inv io s' ∧ s'.remaining < s.remaining := by
  have hnot := h.not_notified (by rw [hs]; simp)
  obtain ⟨hpos, hle, himg⟩ := h.submit req hs
  have hcore := (h.core (by rw [hs]; simp)).submitIoreq hle himg
  unfold Rw.issue
  rw [hs]
  dsimp only
  split
  · next hmore =>
      have hreq : s.nextReq = some (s.io.newReq (s.off + req.count) (s.count - req.count)) := by
        unfold Rw.nextReq
        rw [hs]
        exact if_pos hmore
      obtain ⟨s', hs', hinv, hrem⟩ := hcore.allocateBlock hmore (hclear _ hreq).2 hnot
      refine ⟨s', hs', hinv, ?_⟩
      rw [hrem, Rw.remaining, hs]
      show s.count - req.count < s.count
      have := himg.1
      simp only at this
      omega
  · next hmore =>
      have hzero : (s.submitIoreq req).count = 0 := by omega
      rw [check_true hzero, ok_bind]
      refine ⟨_, rfl, ?_, ?_⟩
      · exact {
          core := fun _ => hcore.setState _
          start := fun hs' => nomatch hs'
          submit := fun req' hs' => nomatch hs'
          loop := fun hs' => nomatch hs'
          finish := fun _ => ⟨hzero, by simp [Rw.submitIoreq]⟩
          alive := by simp
          -- the piece that was submitted is in flight
          notified := by simpa [Rw.submitIoreq] using hnot }
      · rw [Rw.remaining, Rw.remaining, hs]
        exact hpos

/-- A turn that maps a piece and submits it. -/
theorem Inv.issue_loop {io : Io} {s : Rw} (h : Inv io s) (hs : s.state = .loop)
    (hclear : FitEvent s .issue) :
    ∃ s', s.issue = .ok s' ∧ Inv io s' ∧ s'.remaining < s.remaining := by
  have hnot := h.not_notified (by rw [hs]; simp)
  have hpos := h.loop hs
  have hreq := hclear (s.io.newReq s.off s.count) (by unfold Rw.nextReq; rw [hs])
  obtain ⟨req, fs, hmap, hcore₁, hle, himg⟩ := (h.core (by rw [hs]; simp)).mapPiece hpos hreq.2
  have hcore := hcore₁.submitIoreq hle himg
  have hrun : s.issue = s.mapPiece.bind fun r =>
      let s' := { s with fs := r.2 }.submitIoreq r.1
      .ok { s' with state := if s'.count > 0 then .loop else .finish } := by
    unfold Rw.issue
    rw [hs]
  rw [hrun, hmap, ok_bind]
  refine ⟨_, rfl, ?_, ?_⟩
  · exact {
      core := fun _ => hcore.setState _
      start := by
        intro hs'
        dsimp only at hs'
        split at hs' <;> cases hs'
      submit := by
        intro req' hs'
        dsimp only at hs'
        split at hs' <;> cases hs'
      loop := by
        intro hs'
        dsimp only at hs' ⊢
        split at hs'
        · assumption
        · cases hs'
      finish := by
        intro hs'
        dsimp only at hs' ⊢
        split at hs'
        · cases hs'
        · exact ⟨by omega, by simp [Rw.submitIoreq]⟩
      alive := by
        dsimp only
        split <;> simp
      -- the piece that was submitted is in flight
      notified := by simpa [Rw.submitIoreq] using hnot }
  · have hreq := himg.1
    simp only at hreq
    by_cases hmore : s.count - req.count > 0
    · simp only [Rw.remaining, Rw.submitIoreq, hs, if_pos hmore]
      omega
    · simpa only [Rw.remaining, Rw.submitIoreq, hs, if_neg hmore] using hpos

/-- A turn of the issuing code does not abort and keeps the invariant. -/
theorem Inv.issue {io : Io} {s : Rw} (h : Inv io s) (hcount : 0 < io.count)
    (hclear : FitEvent s .issue) (hne : s.state ≠ .finish) :
    ∃ s', s.issue = .ok s' ∧ Inv io s' ∧ s'.remaining < s.remaining := by
  cases hs : s.state with
  | start =>
      have hio := h.io_eq
      have hreq := hclear (s.io.newReq s.io.off s.io.count) (by unfold Rw.nextReq; rw [hs])
      have hrun : s.issue = Rw.allocateBlock { s with
          off := s.io.off, count := s.io.count, io := { s.io with left := s.io.count } } := by
        unfold Rw.issue
        rw [hs]
      rw [hrun]
      rw [hio.1, hio.2] at hreq ⊢
      obtain ⟨s', hs', hinv, hrem⟩ :=
        (h.start hs).2.allocateBlock hcount hreq.2 (h.not_notified hne)
      refine ⟨s', hs', hinv, ?_⟩
      rw [hrem, Rw.remaining, hs]
      simp only [hio.2]
      omega
  | submit req => exact h.issue_submit hs hclear
  | loop => exact h.issue_loop hs hclear
  | finish => exact absurd hs hne
  | aborted => exact absurd hs h.alive

/-- A completion keeps the invariant: the last one after the last submission, and no other,
notifies the issuer. -/
theorem Inv.completion {io : Io} {s : Rw} (h : Inv io s) {p : Nat × Ioreq}
    (hp : p ∈ s.inflight) : Inv io (s.completion p) := by
  have hsub : s.submitted ≠ [] := by
    intro hnil
    by_cases hs : s.state = .start
    · have := (h.start hs).2.perm
      simp only [hnil, List.perm_nil, List.append_eq_nil_iff] at this
      rw [this.2] at hp
      cases hp
    · have := (h.core hs).perm
      simp only [hnil, List.perm_nil, List.append_eq_nil_iff] at this
      rw [this.2] at hp
      cases hp
  have hstart : s.state ≠ .start := fun hs => hsub (h.start hs).1
  have hcore := h.core hstart
  have hlen := List.length_erase_of_mem hp
  have hpos : 0 < s.inflight.length := List.length_pos_of_mem hp
  have href : s.io.ref = s.inflight.length := by rw [hcore.ref]
  have hissuer : s.io.issuer = io.issuer := by
    rw [hcore.ref]
    rfl
  refine ⟨fun _ => ⟨?_, hcore.sound, hcore.mapped, hcore.tiles, hcore.rest, hcore.left,
    hcore.image, ?_⟩, fun hs => absurd hs hstart, h.submit, h.loop, h.finish, h.alive, ?_⟩
  · show ({ s.io with ref := s.io.ref - 1 } : Io) =
      { io with ref := ((s.inflight.erase p).length : Int), left := s.io.left }
    have hcast : ((s.inflight.length - 1 : Nat) : Int) = (s.inflight.length : Int) - 1 := by omega
    rw [hcore.ref, hlen, hcast]
  · show ((s.completed ++ [p]) ++ s.inflight.erase p).Perm s.submitted
    have hperm : (p :: s.inflight.erase p).Perm s.inflight := (List.perm_cons_erase hp).symm
    rw [List.append_assoc]
    exact (hperm.append_left _).trans hcore.perm
  · -- the notification of `Completion` is the one that is due
    have hne : s.inflight ≠ [] := List.ne_nil_of_mem hp
    have hold : s.notified = [] := by rw [h.notified, if_neg (fun hf => hne hf.2)]
    have hempty : s.io.ref - 1 = 0 ↔ s.inflight.erase p = [] := by
      rw [← List.length_eq_zero_iff, hlen, href]
      omega
    have hleft : s.io.left = 0 ↔ s.state = .finish := by
      rw [hcore.left hsub]
      constructor
      · intro hzero
        cases hs : s.state with
        | start => exact absurd hs hstart
        | submit req =>
            have := (h.submit req hs).1
            omega
        | loop =>
            have := h.loop hs
            omega
        | finish => rfl
        | aborted => exact absurd hs h.alive
      · intro hs
        exact (h.finish hs).1
    show (if s.io.ref - 1 = 0 ∧ s.io.left = 0 then s.notified ++ [s.io.issuer] else s.notified) =
      if s.state = .finish ∧ s.inflight.erase p = [] then [io.issuer] else []
    exact if_congr (by rw [hempty, hleft, and_comm]) (by rw [hold, hissuer]; rfl) hold

/-- Another call of `Map` keeps the invariant. -/
theorem Inv.other {io : Io} {s : Rw} (h : Inv io s) {c : MapCall} {fs : FileSystem}
    (hclear : Clear s.fs c.fid c.req c.alloc) (hstep : MapStep s.fs c fs) :
    Inv io { s with fs := fs } := by
  have hsends : ∀ i x y, Sends (s.fs.files i).extents x y → Sends (fs.files i).extents x y :=
    fun i x y hxy => (hstep.sends i x y).mpr (Or.inl hxy)
  have hsound : (∀ i, Sound (s.fs.files i)) → ∀ i, Sound (fs.files i) :=
    (map_cases hstep.1 hstep.2).sound hclear
  refine ⟨fun hs => (h.core hs).set_fs (hsound (h.core hs).sound) hsends, ?_, ?_, h.loop,
    h.finish, h.alive, h.notified⟩
  · intro hs
    obtain ⟨hnil, hcore⟩ := h.start hs
    exact ⟨hnil, hcore.set_fs (hsound hcore.sound) hsends⟩
  · intro req hs
    obtain ⟨hpos, hle, himg⟩ := h.submit req hs
    exact ⟨hpos, hle, himg.1, fun k hk => hsends _ _ _ (himg.2 k hk)⟩

/-- Every fit step keeps the invariant, and every turn of the issuing code is one less to
go. -/
theorem Inv.step {io : Io} {s s' : Rw} {e : RwEvent} (h : Inv io s) (hcount : 0 < io.count)
    (hstep : FitRwStep s e s') :
    Inv io s' ∧ s'.remaining + (if e = .issue then 1 else 0) ≤ s.remaining := by
  obtain ⟨hclear, hstep⟩ := hstep
  cases hstep with
  | issue hfin _ =>
      obtain ⟨s', hs', hinv, hrem⟩ := h.issue hcount hclear hfin
      have heq : s.issueStep = s' := by
        unfold Rw.issueStep
        rw [hs']
      rw [heq, if_pos rfl]
      exact ⟨hinv, hrem⟩
  | completion p hp => exact ⟨h.completion hp, by simp [Rw.remaining, Rw.completion]⟩
  | other c fs hmap => exact ⟨h.other hclear.2 hmap, by simp [Rw.remaining]⟩

/-- A run of fit steps keeps the invariant and makes only as many turns as are left. -/
theorem Inv.run {io : Io} {s s' : Rw} {es : List RwEvent} (h : Inv io s) (hcount : 0 < io.count)
    (hrun : Run FitRwStep s es s') :
    Inv io s' ∧ s'.remaining + es.count .issue ≤ s.remaining := by
  induction hrun with
  | nil => exact ⟨h, by simp⟩
  | @cons s t u e es hstep _ ih =>
      obtain ⟨ht, hle⟩ := h.step hcount hstep
      obtain ⟨hu, hle'⟩ := ih ht
      refine ⟨hu, ?_⟩
      rw [List.count_cons]
      by_cases he : e = .issue
      · subst he
        simp only [if_true, beq_self_eq_true] at hle ⊢
        omega
      · rw [if_neg he] at hle
        simp only [beq_iff_eq, he, if_false]
        omega

/-- The invariant says what holds of an IO from outside. -/
theorem Inv.endToEnd {io : Io} {s : Rw} (h : Inv io s) : EndToEnd io s := by
  by_cases hs : s.state = .start
  · obtain ⟨hnil, hcore⟩ := h.start hs
    refine ⟨h.alive, ⟨io.off, by omega, ?_, ?_⟩, hcore.image, hcore.perm, h.notified⟩
    · rw [hnil]
      rfl
    · intro hf
      rw [hs] at hf
      cases hf
  · have hcore := h.core hs
    have hrest := hcore.rest
    refine ⟨h.alive, ⟨s.off, by omega, hcore.tiles, ?_⟩, hcore.image, hcore.perm, h.notified⟩
    intro hf
    have := (h.finish hf).1
    omega

end Rw

open Rw

/-- `ReadWrite` starts an IO in the invariant. -/
theorem readWrite_inv {fs : FileSystem} (hsound : ∀ i, Sound (fs.files i)) {totFiles : Nat}
    (allocateBlockTime : Nat) {io : Io} (hfid : io.fid < totFiles) (hcount : 0 < io.count)
    (href : io.ref = 0)
    (hread : io.cmd = .read → ∀ x, io.off ≤ x → x < io.off + io.count →
      Defines (fs.files io.fid).extents x) :
    ∃ s₀, readWrite fs totFiles allocateBlockTime io = .ok s₀ ∧ Inv io s₀ ∧
      s₀.remaining ≤ io.count + 1 := by
  have hio : io = { io with ref := 0, left := io.left } := by rw [← href]
  unfold readWrite
  rw [if_neg (by omega)]
  split
  · rw [check_true hfid, ok_bind]
    refine ⟨_, rfl, ⟨fun hs => absurd rfl hs, fun _ => ⟨rfl, ?_⟩, ?_, ?_, ?_, by simp, by simp⟩,
      le_rfl⟩
    · refine ⟨by simp [href], hsound, hread, rfl, rfl, fun hne => absurd rfl hne, ?_, .nil⟩
      intro p hp
      cases hp
    · intro req hs
      cases hs
    · intro hs
      cases hs
    · intro hs
      cases hs
  · rw [check_true (Nat.le_of_lt hfid), ok_bind]
    refine ⟨_, rfl, ⟨fun _ => ?_, ?_, ?_, fun _ => hcount, ?_, by simp, by simp⟩,
      Nat.le_succ _⟩
    · refine ⟨by simpa using hio, hsound, hread, rfl, rfl, fun hne => absurd rfl hne, ?_, .nil⟩
      intro p hp
      cases hp
    · intro hs
      cases hs
    · intro req hs
      cases hs
    · intro hs
      cases hs

/-- Take a file system that fit calls of `Map` led to, and an IO of it with at least one byte
and no reference yet. A read must be of mapped bytes. Then `ReadWrite` starts, and in every run
of fit steps the IO is served end to end, with at most `io.count + 1` turns of the issuing
code. -/
theorem readWrite_end_to_end (mntopt : AllocAlgo) (reservePA : Bool) (cs : List MapCall)
    (fs : FileSystem) (hfs : Run FitStep (FileSystem.start mntopt reservePA) cs fs)
    (totFiles allocateBlockTime : Nat) (io : Io) (hfid : io.fid < totFiles)
    (hcount : 0 < io.count) (href : io.ref = 0)
    (hread : io.cmd = .read → ∀ x, io.off ≤ x → x < io.off + io.count →
      Defines (fs.files io.fid).extents x) :
    ∃ s₀, readWrite fs totFiles allocateBlockTime io = .ok s₀ ∧
      ∀ es s, Run FitRwStep s₀ es s → EndToEnd io s ∧ es.count .issue ≤ io.count + 1 := by
  obtain ⟨s₀, hs₀, hinv₀, hrem₀⟩ :=
    readWrite_inv (run_sound (hfs.mono fun _ _ _ h => h.2) fun _ => sound_empty) allocateBlockTime hfid hcount href hread
  refine ⟨s₀, hs₀, fun es s hrun => ?_⟩
  obtain ⟨hinv, hle⟩ := hinv₀.run hcount hrun
  exact ⟨hinv.endToEnd, by omega⟩

/-- A write of 12 KiB that a message waits for. -/
def writeIo : Io := ⟨.write, 0, 4096, 12288, 0, 0, none, 7⟩

/-- The write on an empty file, in one turn of the loop. -/
theorem readWrite_end_to_end_write : ∃ s₀,
    readWrite (FileSystem.start .mballoc false) 1 0 writeIo = .ok s₀ ∧
      ∀ es s, Run FitRwStep s₀ es s →
        EndToEnd writeIo s ∧ es.count .issue ≤ writeIo.count + 1 :=
  readWrite_end_to_end .mballoc false [] _ (.nil _) 1 0 writeIo (by decide) (by decide) rfl
    (by intro h; cases h)

/-- The same write after three calls of `Map`, of which the third begins in a hole and runs into
the next extent. It took bytes from the window of the file twice, so the window cannot pay for
the write any more: the write aborts in `MbUseInodePA`. -/
theorem readWrite_abort : ¬ ∀ mntopt reservePA cs fs,
    Run MapStep (FileSystem.start mntopt reservePA) cs fs →
    ∀ totFiles allocateBlockTime io, io.fid < totFiles → 0 < io.count → io.ref = 0 →
      (io.cmd = .read → ∀ x, io.off ≤ x → x < io.off + io.count →
        Defines (fs.files io.fid).extents x) →
      ∃ s₀, readWrite fs totFiles allocateBlockTime io = .ok s₀ ∧
        ∀ es s, Run RwStep s₀ es s → EndToEnd io s ∧ es.count .issue ≤ io.count + 1 := by
  intro h
  obtain ⟨fs, hfs, habort⟩ : ∃ fs, Run MapStep (FileSystem.start .mballoc false)
      [⟨0, writeReq 32768 4096, true, 0, writeReq 32768 4096⟩,
        ⟨0, writeReq 0 4096, true, 0, ⟨.write, 0, 1, 0, 4096⟩⟩,
        ⟨0, writeReq 16384 49152, true, 0, ⟨.write, 0, 1, 16384, 49152⟩⟩] fs ∧
      (Rw.issueStep ⟨fs, writeIo, .loop, 4096, 12288, [], [], [], []⟩).state = .aborted :=
    ⟨_, .cons ⟨by decide, rfl⟩ <| .cons ⟨by decide, rfl⟩ <| .cons ⟨by decide, rfl⟩ (.nil _), rfl⟩
  obtain ⟨s₀, hs₀, hend⟩ := h .mballoc false _ fs hfs 1 0 writeIo (by decide) (by decide) rfl
    (by intro h; cases h)
  cases hs₀
  have hstep : RwStep ⟨fs, writeIo, .loop, 4096, 12288, [], [], [], []⟩ .issue _ :=
    .issue _ (by simp) (by simp)
  exact (hend _ _ (.cons hstep (.nil _))).1.alive habort

end LustreSimulator.FileSystem
