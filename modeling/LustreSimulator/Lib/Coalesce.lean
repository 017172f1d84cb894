import LustreSimulator.Lib.Run
import LustreSimulator.Lib.Tiling
import Mathlib.Algebra.BigOperators.Group.Finset.Basic
import Mathlib.Algebra.GroupWithZero.Nat
import Mathlib.Tactic.Abel

/-!
# `LustreSimulator.Lib.Coalesce`: pools of jobs that coalesce items

An item has a range, an offset and a length. A `Pool` gathers items into jobs: an item starts a
job of its own or joins a job whose range it extends, at the end or at the front, and two
adjacent jobs may merge. Later a job is served item by item, and it retires when no item is
left.

Two things hold along every run of `Pool.Step`:

* `Pool.run_tiled`: the items of a job, in their order, tile the range of the job;
* `Pool.run_content`: the items that are done and the items of the live jobs are together the
  items that were given to the pool, each as often as it was given.

A pool says nothing about how a job to join is found, nor in which order jobs are served.
-/

set_option autoImplicit false

namespace LustreSimulator.Lib

variable {ι α : Type*}

/-- A job: its range, the items that are served and the items that are not. -/
structure Job (α : Type*) where
  off : Nat
  len : Nat
  served : List α
  items : List α

namespace Job

variable (range : α → Nat × Nat)

/-- The items of the job tile its range in their order. -/
def Tiled (j : Job α) : Prop := Tiles j.off ((j.served ++ j.items).map range) (j.off + j.len)

/-- A job of one item. -/
def single (x : α) : Job α := ⟨(range x).1, (range x).2, [], [x]⟩

/-- The item joins the job at its end. -/
def back (j : Job α) (x : α) : Job α :=
  { j with len := j.len + (range x).2, items := j.items ++ [x] }

/-- The item joins the job at its front. -/
def front (j : Job α) (x : α) : Job α :=
  { j with off := (range x).1, len := j.len + (range x).2, items := x :: j.items }

/-- The job `k` is hung behind the job `j`. -/
def merge (j k : Job α) : Job α := { j with len := j.len + k.len, items := j.items ++ k.items }

/-- The first item is served. -/
def serve (j : Job α) (x : α) (rest : List α) : Job α :=
  { j with served := j.served ++ [x], items := rest }

variable {range} {j k : Job α} {x : α}

/-- A single item tiles its job. -/
theorem tiled_single : (single range x).Tiled range := ⟨rfl, rfl⟩

/-- An item that starts where the job ends extends the tiling. -/
theorem Tiled.back (h : j.Tiled range) (hx : (range x).1 = j.off + j.len) :
    (j.back range x).Tiled range := by
  show Tiles j.off ((j.served ++ (j.items ++ [x])).map range) (j.off + (j.len + (range x).2))
  rw [← List.append_assoc, List.map_append, ← Nat.add_assoc]
  exact Tiles.append h ⟨hx, rfl⟩

/-- An item that ends where the job starts extends the tiling of a job that is not served yet. -/
theorem Tiled.front (h : j.Tiled range) (hserved : j.served = [])
    (hx : (range x).1 + (range x).2 = j.off) : (j.front range x).Tiled range := by
  have hitems : Tiles j.off (j.items.map range) (j.off + j.len) := by
    have h' := h
    rwa [Tiled, hserved] at h'
  have hstop : (range x).1 + (j.len + (range x).2) = j.off + j.len := by omega
  show Tiles (range x).1 ((j.served ++ x :: j.items).map range)
    ((range x).1 + (j.len + (range x).2))
  rw [hserved, hstop]
  refine ⟨rfl, ?_⟩
  rwa [hx]

/-- The tilings of two adjacent jobs glue together. -/
theorem Tiled.merge (hj : j.Tiled range) (hk : k.Tiled range) (hserved : k.served = [])
    (hadj : j.off + j.len = k.off) : (j.merge k).Tiled range := by
  have hitems : Tiles k.off (k.items.map range) (k.off + k.len) := by
    have h' := hk
    rwa [Tiled, hserved] at h'
  show Tiles j.off ((j.served ++ (j.items ++ k.items)).map range) (j.off + (j.len + k.len))
  rw [← List.append_assoc, List.map_append, ← Nat.add_assoc]
  apply Tiles.append hj
  rwa [hadj]

/-- Serving an item does not change the tiling. -/
theorem Tiled.serve {rest : List α} (h : j.Tiled range) (hitems : j.items = x :: rest) :
    (j.serve x rest).Tiled range := by
  show Tiles j.off ((j.served ++ [x] ++ rest).map range) (j.off + j.len)
  rw [List.append_assoc]
  show Tiles j.off ((j.served ++ x :: rest).map range) (j.off + j.len)
  rw [← hitems]
  exact h

/-- The items of the jobs as multisets. -/
theorem coe_single : ((single range x).items : Multiset α) = {x} := rfl

theorem coe_back : ((j.back range x).items : Multiset α) = (j.items : Multiset α) + {x} :=
  (Multiset.coe_add j.items [x]).symm

theorem coe_front : ((j.front range x).items : Multiset α) = (j.items : Multiset α) + {x} := by
  rw [add_comm]
  exact (Multiset.coe_add [x] j.items).symm

theorem coe_merge :
    ((j.merge k).items : Multiset α) = (j.items : Multiset α) + (k.items : Multiset α) :=
  (Multiset.coe_add j.items k.items).symm

theorem coe_serve {rest : List α} (hitems : j.items = x :: rest) :
    (j.items : Multiset α) = {x} + ((j.serve x rest).items : Multiset α) := by
  rw [hitems]
  exact (Multiset.coe_add [x] rest).symm

end Job

/-- The live jobs, and the items that are done. A job that is not live has no meaning. -/
structure Pool (ι α : Type*) where
  live : Finset ι
  job : ι → Job α
  done : Multiset α

namespace Pool

/-- What happens to a pool. -/
inductive Action (ι α : Type*) where
  | back (a : ι) (x : α)
  | front (a : ι) (x : α)
  | merge (a b : ι)
  | add (a : ι) (x : α)
  | serve (a : ι) (x : α)
  | retire (a : ι)

/-- The items that an action gives to the pool. -/
def Action.given : Action ι α → Multiset α
  | .back _ x => {x}
  | .front _ x => {x}
  | .merge _ _ => 0
  | .add _ x => {x}
  | .serve _ _ => 0
  | .retire _ => 0

/-- The live jobs of `p'` other than `a` are as in `p`. -/
def Keeps (p p' : Pool ι α) (a : ι) : Prop := ∀ b ∈ p'.live, b ≠ a → p'.job b = p.job b

variable (range : α → Nat × Nat)

/-- The steps of a pool. Only a job that is not being served grows at the front or is hung behind
another. -/
inductive Step [DecidableEq ι] : Pool ι α → Action ι α → Pool ι α → Prop where
  | back {p p' : Pool ι α} {a : ι} {x : α} : a ∈ p.live →
      (range x).1 = (p.job a).off + (p.job a).len → p'.live = p.live →
      p'.job a = (p.job a).back range x → Keeps p p' a → p'.done = p.done →
      Step p (.back a x) p'
  | front {p p' : Pool ι α} {a : ι} {x : α} : a ∈ p.live → (p.job a).served = [] →
      (range x).1 + (range x).2 = (p.job a).off → p'.live = p.live →
      p'.job a = (p.job a).front range x → Keeps p p' a → p'.done = p.done →
      Step p (.front a x) p'
  | merge {p p' : Pool ι α} {a b : ι} : a ∈ p.live → b ∈ p.live → a ≠ b →
      (p.job b).served = [] → (p.job a).off + (p.job a).len = (p.job b).off →
      p'.live = p.live.erase b → p'.job a = (p.job a).merge (p.job b) → Keeps p p' a →
      p'.done = p.done → Step p (.merge a b) p'
  | add {p p' : Pool ι α} {a : ι} {x : α} : a ∉ p.live → p'.live = insert a p.live →
      p'.job a = .single range x → Keeps p p' a → p'.done = p.done → Step p (.add a x) p'
  | serve {p p' : Pool ι α} {a : ι} {x : α} {rest : List α} : a ∈ p.live →
      (p.job a).items = x :: rest → p'.live = p.live → p'.job a = (p.job a).serve x rest →
      Keeps p p' a → p'.done = p.done + {x} → Step p (.serve a x) p'
  | retire {p p' : Pool ι α} {a : ι} : a ∈ p.live → (p.job a).items = [] →
      p'.live = p.live.erase a → Keeps p p' a → p'.done = p.done → Step p (.retire a) p'

/-- Every live job is tiled by its items. -/
def Tiled (p : Pool ι α) : Prop := ∀ a ∈ p.live, (p.job a).Tiled range

/-- The items that are done and the items of the live jobs. -/
def content (p : Pool ι α) : Multiset α := p.done + ∑ a ∈ p.live, ((p.job a).items : Multiset α)

variable {range} [DecidableEq ι] {p p' : Pool ι α} {act : Action ι α}

/-- One job of a pool changes and the others stay. -/
theorem tiled_of_keeps {a : ι} (h : p.Tiled range) (hlive : ∀ b ∈ p'.live, b ≠ a → b ∈ p.live)
    (hkeeps : Keeps p p' a) (ha : a ∈ p'.live → (p'.job a).Tiled range) : p'.Tiled range := by
  intro b hb
  by_cases hne : b = a
  · subst hne
    exact ha hb
  · rw [hkeeps b hb hne]
    exact h b (hlive b hb hne)

/-- A step keeps the jobs tiled. -/
theorem Step.tiled (hstep : Step range p act p') (h : p.Tiled range) : p'.Tiled range := by
  cases hstep with
  | @back _ a x ha hx hlive hjob hkeeps _ =>
      refine tiled_of_keeps h (fun b hb _ => hlive ▸ hb) hkeeps fun _ => ?_
      rw [hjob]
      exact (h a ha).back hx
  | @front _ a x ha hserved hx hlive hjob hkeeps _ =>
      refine tiled_of_keeps h (fun b hb _ => hlive ▸ hb) hkeeps fun _ => ?_
      rw [hjob]
      exact (h a ha).front hserved hx
  | @merge _ a b ha hb _ hserved hadj hlive hjob hkeeps _ =>
      refine tiled_of_keeps h ?_ hkeeps fun _ => ?_
      · intro c hc _
        rw [hlive] at hc
        exact Finset.mem_of_mem_erase hc
      · rw [hjob]
        exact (h a ha).merge (h b hb) hserved hadj
  | @add _ a x _ hlive hjob hkeeps _ =>
      refine tiled_of_keeps h ?_ hkeeps fun _ => ?_
      · intro b hb hne
        rw [hlive] at hb
        exact Finset.mem_of_mem_insert_of_ne hb hne
      · rw [hjob]
        exact Job.tiled_single
  | @serve _ a x rest ha hitems hlive hjob hkeeps _ =>
      refine tiled_of_keeps h (fun b hb _ => hlive ▸ hb) hkeeps fun _ => ?_
      rw [hjob]
      exact (h a ha).serve hitems
  | @retire _ a ha _ hlive hkeeps _ =>
      refine tiled_of_keeps h ?_ hkeeps fun hmem => ?_
      · intro b hb _
        rw [hlive] at hb
        exact Finset.mem_of_mem_erase hb
      · rw [hlive] at hmem
        exact absurd hmem (Finset.notMem_erase a p.live)

omit [DecidableEq ι] in
/-- The items of the other jobs do not change. -/
theorem sum_keeps {a : ι} {s : Finset ι} (hkeeps : Keeps p p' a) (hs : ∀ b ∈ s, b ∈ p'.live)
    (ha : a ∉ s) :
    ∑ b ∈ s, ((p'.job b).items : Multiset α) = ∑ b ∈ s, ((p.job b).items : Multiset α) := by
  apply Finset.sum_congr rfl
  intro b hb
  rw [hkeeps b (hs b hb)]
  rintro rfl
  exact ha hb

/-- The items of a job and those of the others. -/
theorem sum_split {a : ι} (ha : a ∈ p.live) :
    ∑ b ∈ p.live, ((p.job b).items : Multiset α) =
      ((p.job a).items : Multiset α) + ∑ b ∈ p.live.erase a, ((p.job b).items : Multiset α) :=
  (Finset.add_sum_erase p.live (fun b => ((p.job b).items : Multiset α)) ha).symm

/-- When only the job `a` changes, only its items do. -/
theorem sum_update {a : ι} (ha : a ∈ p.live) (hlive : p'.live = p.live) (hkeeps : Keeps p p' a) :
    ∑ b ∈ p'.live, ((p'.job b).items : Multiset α) =
      ((p'.job a).items : Multiset α) + ∑ b ∈ p.live.erase a, ((p.job b).items : Multiset α) := by
  rw [sum_split (p := p') (hlive ▸ ha), hlive]
  congr 1
  apply sum_keeps hkeeps
  · intro b hb
    rw [hlive]
    exact Finset.mem_of_mem_erase hb
  · exact Finset.notMem_erase a p.live

/-- A step adds to the content of the pool what it is given. -/
theorem Step.content (hstep : Step range p act p') : p'.content = p.content + act.given := by
  unfold Pool.content
  cases hstep with
  | @back _ a x ha _ hlive hjob hkeeps hdone =>
      rw [sum_update ha hlive hkeeps, sum_split ha, hdone, hjob, Job.coe_back, Action.given]
      abel
  | @front _ a x ha _ _ hlive hjob hkeeps hdone =>
      rw [sum_update ha hlive hkeeps, sum_split ha, hdone, hjob, Job.coe_front, Action.given]
      abel
  | @merge _ a b ha hb hne _ _ hlive hjob hkeeps hdone =>
      have ha' : a ∈ p'.live := by
        rw [hlive]
        exact Finset.mem_erase_of_ne_of_mem hne ha
      have hrest := sum_keeps (s := p'.live.erase a) hkeeps
        (fun c hc => Finset.mem_of_mem_erase hc) (Finset.notMem_erase a p'.live)
      have hsplit := Finset.add_sum_erase (p.live.erase b)
        (fun c => ((p.job c).items : Multiset α)) (Finset.mem_erase_of_ne_of_mem hne ha)
      rw [sum_split ha', hrest, hlive, sum_split hb, ← hsplit, hdone, hjob, Job.coe_merge,
        Action.given]
      abel
  | @add _ a x ha hlive hjob hkeeps hdone =>
      have hrest := sum_keeps (s := p.live) hkeeps
        (fun b hb => by rw [hlive]; exact Finset.mem_insert_of_mem hb) ha
      rw [hlive, Finset.sum_insert ha, hrest, hdone, hjob, Job.coe_single, Action.given]
      abel
  | @serve _ a x rest ha hitems hlive hjob hkeeps hdone =>
      rw [sum_update ha hlive hkeeps, sum_split ha, hdone, hjob, Job.coe_serve hitems,
        Action.given]
      abel
  | @retire _ a ha hitems hlive hkeeps hdone =>
      have hrest := sum_keeps (s := p.live.erase a) hkeeps
        (fun b hb => by rwa [hlive]) (Finset.notMem_erase a p.live)
      rw [hlive, hrest, sum_split ha, hitems, hdone, Multiset.coe_nil, Action.given]
      abel

/-- A run keeps the jobs tiled. -/
theorem run_tiled {acts : List (Action ι α)} (h : Run (Step range) p acts p')
    (hp : p.Tiled range) : p'.Tiled range :=
  h.invariant (fun _ _ _ hq hstep => hstep.tiled hq) hp

/-- A run adds to the content of the pool what it is given. -/
theorem run_content {acts : List (Action ι α)} (h : Run (Step range) p acts p') :
    p'.content = p.content + (acts.map Action.given).sum := by
  induction h with
  | nil => simp
  | cons hstep _ ih => rw [ih, hstep.content, List.map_cons, List.sum_cons, add_assoc]

end Pool

end LustreSimulator.Lib
