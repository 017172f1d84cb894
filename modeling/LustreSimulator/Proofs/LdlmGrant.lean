import LustreSimulator.Proofs.LdlmPolicy
import Mathlib.Data.List.Nodup

/-!
# `LustreSimulator.Proofs.LdlmGrant`: granting and unlinking a lock

`Compatible` is what a lock manager is for: two granted locks whose modes are not compatible have
extents apart, and two `GROUP` locks have one `gid`.

`Inv` puts the interval trees beside it. The nodes of `lr_itree[i]` are the ones that have a
granted lock of the mode `i` in their group, and the extent of the node is the one of its locks.
A lock that has not been granted is alone in the group of its own node, which is in no tree.

`Inv.unlink` takes a lock away, and `Inv.grantLock` grants one.
-/

set_option autoImplicit false

namespace LustreSimulator.Ldlm

open Lib IntervalTree

variable {s s' : Resource} {l : Nat}

/-- Two granted locks do not conflict. -/
def Compatible (s : Resource) : Prop :=
  ∀ a ∈ s.granted, ∀ b ∈ s.granted, a ≠ b → ∀ ma mb,
    (s.locks a).grantedMode = some ma → (s.locks b).grantedMode = some mb →
    (lockmodeCompat ma mb = false →
      (s.locks a).extent.overlapped (s.locks b).extent = false) ∧
    (ma = .group → mb = .group → (s.locks a).gid = (s.locks b).gid)

/-- The invariant of the resource. -/
structure Inv (s : Resource) : Prop where
  wf : ∀ m, WF (s.itree m)
  request : ∀ l, PageExtent (s.locks l).reqExtent
  /-- a lock that has not been granted -/
  fresh : ∀ l, (s.locks l).grantedMode = none → (s.locks l).treeNode = some l ∧
    s.liGroup l = [l] ∧ s.inIntree l = false ∧ (s.locks l).extent = (s.locks l).reqExtent
  /-- a node of a tree -/
  node : ∀ m, ∀ k ∈ keys (s.itree m), s.inIntree k.1 = true ∧ s.liGroup k.1 ≠ []
  /-- a lock in the group of a node of a tree -/
  group : ∀ m, ∀ k ∈ keys (s.itree m), ∀ l ∈ s.liGroup k.1,
    (s.locks l).grantedMode = some m ∧ (s.locks l).extent = k.2 ∧ l ∈ s.granted
  inIntree : ∀ n, s.inIntree n = true → ∃ m, ∃ k ∈ keys (s.itree m), k.1 = n
  attached : ∀ l n, (s.locks l).treeNode = some n ↔ l ∈ s.liGroup n
  groupNodup : ∀ n, (s.liGroup n).Nodup
  granted : ∀ l ∈ s.granted, ∃ n, (s.locks l).treeNode = some n ∧ s.inIntree n = true
  waiting : ∀ l ∈ s.waiting, (s.locks l).grantedMode = none ∧ (s.locks l).destroyed = false
  links : (s.granted ++ s.waiting).Nodup
  compatible : Compatible s

/-- A field of the locks that the update does not touch is the same for all of them. -/
theorem setLock_field {α : Type*} {lock : Lock} (f : Lock → α) (h : f lock = f (s.locks l))
    (i : Nat) : f ((setLock s l lock).locks i) = f (s.locks i) := by
  dsimp only [setLock]
  split
  · rename_i hi
    rw [hi, h]
  · rfl

@[simp]
theorem setLock_locks_self (s : Resource) (l : Nat) (lock : Lock) :
    (setLock s l lock).locks l = lock :=
  if_pos rfl

@[simp]
theorem setLock_itree (s : Resource) (l : Nat) (lock : Lock) :
    (setLock s l lock).itree = s.itree := rfl

@[simp]
theorem setLock_liGroup (s : Resource) (l : Nat) (lock : Lock) :
    (setLock s l lock).liGroup = s.liGroup := rfl

@[simp]
theorem setLock_inIntree (s : Resource) (l : Nat) (lock : Lock) :
    (setLock s l lock).inIntree = s.inIntree := rfl

@[simp]
theorem setLock_granted (s : Resource) (l : Nat) (lock : Lock) :
    (setLock s l lock).granted = s.granted := rfl

@[simp]
theorem setLock_waiting (s : Resource) (l : Nat) (lock : Lock) :
    (setLock s l lock).waiting = s.waiting := rfl

theorem setLock_locks_ne {lock : Lock} {i : Nat} (h : i ≠ l) :
    (setLock s l lock).locks i = s.locks i :=
  if_neg h

/-- A granted lock is in the group of a node of the tree of its mode. -/
theorem Inv.holder (h : Inv s) (hl : l ∈ s.granted) :
    ∃ m, ∃ k ∈ keys (s.itree m), l ∈ s.liGroup k.1 ∧ (s.locks l).grantedMode = some m ∧
      (s.locks l).extent = k.2 := by
  obtain ⟨n, htree, hin⟩ := h.granted l hl
  obtain ⟨m, k, hk, rfl⟩ := h.inIntree n hin
  have hmem := (h.attached l k.1).mp htree
  obtain ⟨hmode, hextent, -⟩ := h.group m k hk l hmem
  exact ⟨m, k, hk, hmem, hmode, hextent⟩

/-- A lock that has not been granted is not among the granted ones. -/
theorem Inv.not_granted (h : Inv s) (hl : (s.locks l).grantedMode = none) : l ∉ s.granted := by
  intro hmem
  obtain ⟨m, -, -, -, hmode, -⟩ := h.holder hmem
  rw [hl] at hmode
  cases hmode

/-- The node of an address is in one tree only, and there once. -/
theorem Inv.node_unique (h : Inv s) {m m' : Mode} {k k' : Nat × IntervalExtent}
    (hk : k ∈ keys (s.itree m)) (hk' : k' ∈ keys (s.itree m')) (heq : k.1 = k'.1) :
    m = m' ∧ k = k' := by
  obtain ⟨l, hl⟩ := List.exists_mem_of_ne_nil _ (h.node m k hk).2
  obtain ⟨hmode, hextent, -⟩ := h.group m k hk l hl
  rw [heq] at hl
  obtain ⟨hmode', hextent', -⟩ := h.group m' k' hk' l hl
  exact ⟨Option.some.inj (hmode.symm.trans hmode'),
    Prod.ext heq (hextent.symm.trans hextent')⟩

/-- Locks that have left the granted ones do not matter. -/
theorem Compatible.of_subset (h : Compatible s)
    (hsub : ∀ i ∈ s'.granted, i ∈ s.granted ∧ (s'.locks i).grantedMode = (s.locks i).grantedMode ∧
      (s'.locks i).extent = (s.locks i).extent ∧ (s'.locks i).gid = (s.locks i).gid) :
    Compatible s' := by
  intro a ha b hb hab ma mb hma hmb
  obtain ⟨ha', hmode, hextent, hgid⟩ := hsub a ha
  obtain ⟨hb', hmode', hextent', hgid'⟩ := hsub b hb
  rw [hextent, hextent', hgid, hgid']
  exact h a ha' b hb' hab ma mb (hmode ▸ hma) (hmode' ▸ hmb)

/-! ### Unlinking -/

/-- A lock that is in no group of a tree leaves the lists. -/
theorem Inv.listDel (h : Inv s) (hl : ∀ m, ∀ k ∈ keys (s.itree m), l ∉ s.liGroup k.1) :
    Inv (listDel s l) where
  wf := h.wf
  request := h.request
  fresh := h.fresh
  node := h.node
  group := by
    intro m k hk i hi
    obtain ⟨hmode, hextent, hgranted⟩ := h.group m k hk i hi
    have hne : i ≠ l := by
      rintro rfl
      exact hl m k hk hi
    exact ⟨hmode, hextent, (List.mem_erase_of_ne hne).mpr hgranted⟩
  inIntree := h.inIntree
  attached := h.attached
  groupNodup := h.groupNodup
  granted := fun i hi => h.granted i (List.mem_of_mem_erase hi)
  waiting := fun i hi => h.waiting i (List.mem_of_mem_erase hi)
  links := h.links.sublist (List.erase_sublist.append List.erase_sublist)
  compatible := h.compatible.of_subset fun i hi => ⟨List.mem_of_mem_erase hi, rfl, rfl, rfl⟩

/-- A lock that has not been granted is in no group of a tree. -/
theorem Inv.not_in_tree (h : Inv s) (hl : (s.locks l).grantedMode = none) :
    ∀ m, ∀ k ∈ keys (s.itree m), l ∉ s.liGroup k.1 := by
  intro m k hk hmem
  have hmode := (h.group m k hk l hmem).1
  rw [hl] at hmode
  cases hmode

/-- A granted lock leaves the group of its node. The trees keep all nodes, or all but the one that
has no lock left. -/
theorem Inv.leave (h : Inv s) {m : Mode} {k : Nat × IntervalExtent} {b : Bool}
    {trees : Mode → IntervalTree} {marks : Nat → Bool} {size : Mode → Int}
    (hk : k ∈ keys (s.itree m)) (hl : l ∈ s.liGroup k.1)
    (hb : b = true ↔ (s.liGroup k.1).erase l ≠ []) (hwf : ∀ i, WF (trees i))
    (hmem : ∀ i x, x ∈ keys (trees i) ↔ x ∈ keys (s.itree i) ∧ (b = true ∨ x ≠ k))
    (hmarks : ∀ n, marks n = if n = k.1 then b else s.inIntree n) :
    Inv { setLock s l { s.locks l with treeNode := none } with
          liGroup := fun i => if i = k.1 then (s.liGroup k.1).erase l else s.liGroup i
          inIntree := marks
          itree := trees
          litSize := size
          granted := s.granted.erase l
          waiting := s.waiting.erase l } := by
  obtain ⟨hmode, -, -⟩ := h.group m k hk l hl
  have htree : (s.locks l).treeNode = some k.1 := (h.attached l k.1).mpr hl
  have hne : ∀ i, (s.locks i).grantedMode = none → i ≠ l := by
    rintro i hi rfl
    rw [hmode] at hi
    cases hi
  have hfield {α : Type} (f : Lock → α)
      (hf : f { s.locks l with treeNode := none } = f (s.locks l)) :=
    setLock_field (s := s) f hf
  -- the lock leaves a group, and no other lock does
  have hgroup : ∀ n i, (i ∈ if n = k.1 then (s.liGroup k.1).erase l else s.liGroup n) ↔
      i ∈ s.liGroup n ∧ i ≠ l := by
    intro n i
    split
    · rename_i hn
      rw [hn, (h.groupNodup k.1).mem_erase_iff]
      exact And.comm
    · rename_i hn
      refine ⟨fun hi => ⟨hi, ?_⟩, And.left⟩
      rintro rfl
      have hother := (h.attached i n).mpr hi
      rw [htree] at hother
      exact hn (Option.some.inj hother).symm
  exact {
    wf := hwf
    request := by
      intro i
      dsimp only
      rw [hfield Lock.reqExtent rfl]
      exact h.request i
    fresh := by
      intro i hi
      dsimp only at hi ⊢
      rw [hfield Lock.grantedMode rfl] at hi
      obtain ⟨htree', hgroup', hin, hextent⟩ := h.fresh i hi
      have hik : i ≠ k.1 := by
        rintro rfl
        rw [(h.node m k hk).1] at hin
        cases hin
      rw [setLock_locks_ne (hne i hi), hmarks, if_neg hik, if_neg hik]
      exact ⟨htree', hgroup', hin, hextent⟩
    node := by
      -- the node of `k` is left only when it has other locks
      intro m' k' hk'
      obtain ⟨hk', hbk⟩ := (hmem m' k').mp hk'
      dsimp only
      rw [hmarks]
      split
      · rename_i hkk
        have hbt : b = true := hbk.resolve_right fun hne => hne (h.node_unique hk' hk hkk).2
        exact ⟨hbt, hb.mp hbt⟩
      · exact h.node m' k' hk'
    group := by
      intro m' k' hk' i hi
      obtain ⟨hk', -⟩ := (hmem m' k').mp hk'
      obtain ⟨hi, hil⟩ := (hgroup k'.1 i).mp hi
      obtain ⟨hmode', hextent', hgranted⟩ := h.group m' k' hk' i hi
      dsimp only
      rw [setLock_locks_ne hil]
      exact ⟨hmode', hextent', (List.mem_erase_of_ne hil).mpr hgranted⟩
    inIntree := by
      intro n hn
      dsimp only at hn
      rw [hmarks] at hn
      split at hn
      · rename_i hnk
        exact ⟨m, k, (hmem m k).mpr ⟨hk, .inl hn⟩, hnk.symm⟩
      · rename_i hnk
        obtain ⟨m', k', hk', rfl⟩ := h.inIntree n hn
        refine ⟨m', k', (hmem m' k').mpr ⟨hk', .inr ?_⟩, rfl⟩
        rintro rfl
        exact hnk rfl
    attached := by
      -- only `l` has lost its node
      intro i n
      dsimp only
      rw [hgroup]
      by_cases hil : i = l
      · rw [hil, setLock_locks_self]
        exact ⟨(fun hnone => nomatch hnone), fun hl' => absurd rfl hl'.2⟩
      · rw [setLock_locks_ne hil, h.attached]
        exact ⟨fun hi => ⟨hi, hil⟩, And.left⟩
    groupNodup := by
      intro n
      dsimp only
      split
      · exact (h.groupNodup k.1).erase l
      · exact h.groupNodup n
    granted := by
      -- a granted lock of the group of `k` keeps the node in its tree
      intro i hi
      have hil : i ≠ l := by
        rintro rfl
        exact (List.Nodup.not_mem_erase (List.nodup_append.mp h.links).1) hi
      obtain ⟨n, htree', hin⟩ := h.granted i (List.mem_of_mem_erase hi)
      refine ⟨n, ?_, ?_⟩
      · dsimp only
        rw [setLock_locks_ne hil, htree']
      · dsimp only
        rw [hmarks]
        split
        · rename_i hnk
          rw [hnk] at htree'
          have hi' := (h.attached i k.1).mp htree'
          exact hb.mpr (List.ne_nil_of_mem ((List.mem_erase_of_ne hil).mpr hi'))
        · exact hin
    waiting := by
      intro i hi
      obtain ⟨hmode', hdestroyed⟩ := h.waiting i (List.mem_of_mem_erase hi)
      dsimp only
      rw [setLock_locks_ne (hne i hmode')]
      exact ⟨hmode', hdestroyed⟩
    links := h.links.sublist (List.erase_sublist.append List.erase_sublist)
    compatible := by
      refine h.compatible.of_subset fun i hi => ⟨List.mem_of_mem_erase hi, ?_, ?_, ?_⟩
      · exact hfield Lock.grantedMode rfl i
      · exact hfield Lock.extent rfl i
      · exact hfield Lock.gid rfl i }

/-- The tree without the node of `k` has all the other keys. -/
theorem mem_keys_erase {t t' : IntervalTree} {k : Nat × IntervalExtent}
    {as bs : List (Nat × IntervalExtent)} (hsorted : Sorted (keys t)) (ht : keys t = as ++ k :: bs)
    (ht' : keys t' = as ++ bs) (x : Nat × IntervalExtent) : x ∈ keys t' ↔ x ∈ keys t ∧ x ≠ k := by
  have hnodup := hsorted.nodup
  rw [ht] at hnodup ⊢
  rw [ht']
  have hk : k ∉ as ++ bs := (List.nodup_middle.mp hnodup).notMem
  constructor
  · intro hx
    refine ⟨?_, fun heq => hk (heq ▸ hx)⟩
    rw [List.mem_append] at hx ⊢
    exact hx.imp_right (List.mem_cons_of_mem k)
  · rintro ⟨hx, hne⟩
    rw [List.mem_append, List.mem_cons] at hx
    rw [List.mem_append]
    exact hx.imp_right fun hx => hx.resolve_left hne

/-- Detaching a lock from its node. -/
theorem intervalDetach_eq {n : Nat} (htree : (s.locks l).treeNode = some n)
    (hne : s.liGroup n ≠ []) :
    intervalDetach s l = .ok ({ setLock s l { s.locks l with treeNode := none } with
        liGroup := fun i => if i = n then (s.liGroup n).erase l else s.liGroup i },
      if (s.liGroup n).erase l = [] then some n else none) := by
  rw [intervalDetach, htree]
  simp only [check_true hne, ok_bind]

/-- A lock that is in no tree only leaves its list. -/
theorem resourceUnlinkLock_eq {n : Nat} (htree : (s.locks l).treeNode = some n)
    (hin : s.inIntree n = false) : resourceUnlinkLock s l = .ok (listDel s l) := by
  simp [resourceUnlinkLock, extentUnlinkLock, htree, hin]

/-- **Unlinking a lock.** -/
theorem Inv.unlink (h : Inv s) (hok : resourceUnlinkLock s l = .ok s') : Inv s' := by
  obtain ⟨u, hu, hok⟩ := bind_eq_ok.mp hok
  cases hok
  rw [extentUnlinkLock] at hu
  split at hu
  · rename_i htree
    cases hu
    refine h.listDel fun m k _ hmem => ?_
    rw [(h.attached l k.1).mpr hmem] at htree
    cases htree
  · rename_i n htree
    have hmem := (h.attached l n).mp htree
    split at hu
    · rename_i hin
      obtain ⟨m, k, hk, rfl⟩ := h.inIntree n hin
      obtain ⟨m', hmode, hu⟩ := bind_eq_ok.mp hu
      obtain rfl : m' = m := by
        rw [require_eq_ok, (h.group m k hk l hmem).1] at hmode
        exact (Option.some.inj hmode).symm
      obtain ⟨-, -, hu⟩ := bind_eq_ok.mp hu
      have hdetach := intervalDetach_eq (l := l)
        (s := { s with litSize := fun i => if i = m' then s.litSize m' - 1 else s.litSize i })
        htree (List.ne_nil_of_mem hmem)
      rw [hdetach, ok_bind] at hu
      by_cases hempty : (s.liGroup k.1).erase l = []
      · -- the node has no lock left, and it is erased
        simp only [if_pos hempty] at hu
        obtain ⟨-, -, hu⟩ := bind_eq_ok.mp hu
        obtain ⟨p, hp, hu⟩ := bind_eq_ok.mp hu
        obtain ⟨t, ht, hu⟩ := bind_eq_ok.mp hu
        cases hu
        rw [require_eq_ok] at hp ht
        obtain ⟨hroot, hentry⟩ := findPos_some hp
        replace hroot : p.tree = s.itree m' := hroot
        have hwf : WF p.tree := hroot ▸ h.wf m'
        obtain ⟨t', as, bs, ht', hwf', hkeys, hkeys'⟩ := erase_spec hwf
        obtain rfl : t' = t := Option.some.inj (ht'.symm.trans ht)
        have hmem' : p.entry.key ∈ keys (s.itree m') := by
          rw [← hroot, hkeys]
          exact List.mem_append_right _ List.mem_cons_self
        have hkey : p.entry.key = k := (h.node_unique hmem' hk (of_decide_eq_true hentry)).2
        rw [hkey] at hkeys
        have herase := mem_keys_erase hwf.sorted hkeys hkeys'
        rw [hroot] at herase
        refine h.leave (b := false) hk hmem (by simp [hempty]) ?_ ?_ fun _ => rfl
        · intro i
          dsimp only
          split
          · exact hwf'
          · exact h.wf i
        · intro i x
          dsimp only
          split
          · rename_i hi
            simp [hi, herase]
          · rename_i hi
            refine ⟨fun hx => ⟨hx, .inr ?_⟩, And.left⟩
            rintro rfl
            exact hi (h.node_unique hx hk rfl).1
      · -- other locks keep the node
        simp only [if_neg hempty] at hu
        cases hu
        refine h.leave (b := true) hk hmem (by simp [hempty]) h.wf
          (fun _ _ => ⟨fun hx => ⟨hx, .inl rfl⟩, And.left⟩) fun n => ?_
        dsimp only [setLock]
        split
        · rename_i hn
          rw [hn, hin]
        · rfl
    · rename_i hin
      cases hu
      refine h.listDel fun m k hk hmem' => ?_
      have htree' := (h.attached l k.1).mpr hmem'
      rw [htree] at htree'
      cases htree'
      exact hin (h.node m k hk).1

/-! ### Granting -/

/-- Compatibility of modes is symmetric. -/
theorem lockmodeCompat_comm (a b : Mode) : lockmodeCompat a b = lockmodeCompat b a := by
  cases a <;> cases b <;> decide

/-- So is the overlap of extents. -/
theorem overlapped_comm (a b : IntervalExtent) : a.overlapped b = b.overlapped a := by
  rw [IntervalExtent.overlapped, IntervalExtent.overlapped, Bool.and_comm]

/-- A lock whose extent overlaps no tree of a mode that is not compatible, and whose `gid` is the
one of the granted `GROUP` locks, is compatible with the granted locks. -/
theorem Compatible.snoc (h : Inv s) {m : Mode} (hl : l ∉ s.granted)
    (hclear : ClearOf s m modes (s'.locks l).extent)
    (hgid : m = .group → ∀ i ∈ s.granted, (s.locks i).grantedMode = some .group →
      (s.locks i).gid = (s'.locks l).gid)
    (hself : (s'.locks l).grantedMode = some m) (hother : ∀ i, i ≠ l → s'.locks i = s.locks i)
    (hgranted : s'.granted = s.granted ++ [l]) : Compatible s' := by
  have hnew : ∀ i ∈ s.granted, ∀ mi, (s'.locks i).grantedMode = some mi →
      (lockmodeCompat mi m = false →
        (s'.locks l).extent.overlapped (s'.locks i).extent = false) ∧
      (mi = .group → m = .group → (s'.locks i).gid = (s'.locks l).gid) := by
    intro i hi mi hmi
    rw [hother i fun hil => hl (hil ▸ hi)] at hmi ⊢
    refine ⟨fun hne => ?_, ?_⟩
    · obtain ⟨m', k, hk, -, hmode, hextent⟩ := h.holder hi
      obtain rfl : m' = mi := Option.some.inj (hmode.symm.trans hmi)
      obtain ⟨x, hx, rfl⟩ := List.mem_map.mp hk
      rw [hextent]
      exact hclear m' (mem_modes m') hne x hx
    · rintro rfl hm
      exact hgid hm i hi hmi
  intro a ha b hb hab ma mb hma hmb
  rw [hgranted, List.mem_append, List.mem_singleton] at ha hb
  rcases ha with ha | rfl <;> rcases hb with hb | rfl
  · rw [hother a fun hal => hl (hal ▸ ha)] at hma ⊢
    rw [hother b fun hbl => hl (hbl ▸ hb)] at hmb ⊢
    exact h.compatible a ha b hb hab ma mb hma hmb
  · obtain rfl : m = mb := Option.some.inj (hself.symm.trans hmb)
    rw [overlapped_comm]
    exact hnew a ha ma hma
  · obtain rfl : m = ma := Option.some.inj (hself.symm.trans hma)
    rw [lockmodeCompat_comm]
    obtain ⟨hover, hgroup⟩ := hnew b hb mb hmb
    exact ⟨hover, fun hm hmb => (hgroup hmb hm).symm⟩
  · exact absurd rfl hab

/-- A lock joins the group of the node of `k`: a node of the tree, or its own, which goes into the
tree. -/
theorem Inv.join (h : Inv s) {m : Mode} {k : Nat × IntervalExtent}
    (hmode : (s.locks l).grantedMode = none) (hlinked : ¬ Linked s l)
    (hk : k ∈ keys (s.itree m) ∨ k.1 = l)
    (hself : (s'.locks l).grantedMode = some m ∧ (s'.locks l).extent = k.2 ∧
      (s'.locks l).treeNode = some k.1 ∧ PageExtent (s'.locks l).reqExtent)
    (hother : ∀ i, i ≠ l → s'.locks i = s.locks i) (hwf : ∀ i, WF (s'.itree i))
    (hkeys : ∀ i x, x ∈ keys (s'.itree i) ↔ x ∈ keys (s.itree i) ∨ i = m ∧ x = k)
    (hgroup : ∀ n, n ≠ l → n ≠ k.1 → s'.liGroup n = s.liGroup n)
    (hmem : ∀ n i, i ∈ s'.liGroup n ↔ if i = l then n = k.1 else i ∈ s.liGroup n)
    (hnodup : ∀ n, (s'.liGroup n).Nodup)
    (hmarks : ∀ n, s'.inIntree n = if n = k.1 then true else s.inIntree n)
    (hgranted : s'.granted = s.granted ++ [l]) (hwaiting : s'.waiting = s.waiting)
    (hcompat : Compatible s') : Inv s' := by
  obtain ⟨hmode', hextent', htree', hreq'⟩ := hself
  obtain ⟨-, hown, hout, -⟩ := h.fresh l hmode
  have hold : ∀ i x, x ∈ keys (s'.itree i) →
      x ∈ keys (s.itree i) ∨ i = m ∧ x = k ∧ k.1 = l := by
    intro i x hx
    rcases (hkeys i x).mp hx with hx | ⟨rfl, rfl⟩
    · exact .inl hx
    · exact hk.imp_right fun hkl => ⟨rfl, rfl, hkl⟩
  have hlgroup : l ∈ s'.liGroup k.1 := by
    rw [hmem, if_pos rfl]
  have hlgranted : l ∈ s'.granted := by
    rw [hgranted]
    exact List.mem_append_right _ List.mem_cons_self
  exact {
    wf := hwf
    request := by
      intro i
      by_cases hil : i = l
      · rw [hil]
        exact hreq'
      · rw [hother i hil]
        exact h.request i
    fresh := by
      -- a lock that is still not granted is alone, so its node is not the one of `k`
      intro i hi
      have hil : i ≠ l := by
        rintro rfl
        rw [hmode'] at hi
        cases hi
      rw [hother i hil] at hi ⊢
      obtain ⟨htree, hgroup', hin, hextent⟩ := h.fresh i hi
      have hik : i ≠ k.1 := by
        rintro rfl
        rcases hk with hk | hk
        · rw [(h.node m k hk).1] at hin
          cases hin
        · exact hil hk
      rw [hgroup i hil hik, hmarks, if_neg hik]
      exact ⟨htree, hgroup', hin, hextent⟩
    node := by
      -- `l` has left its own group, which is in no tree, for the one of `k`
      intro i x hx
      rw [hmarks]
      rcases hold i x hx with hx | ⟨rfl, rfl, -⟩
      · obtain ⟨hin, hne⟩ := h.node i x hx
        obtain ⟨j, hj⟩ := List.exists_mem_of_ne_nil _ hne
        have hjl : j ≠ l := by
          rintro rfl
          exact h.not_in_tree hmode i x hx hj
        refine ⟨?_, List.ne_nil_of_mem ((hmem x.1 j).mpr (by rwa [if_neg hjl]))⟩
        split
        · rfl
        · exact hin
      · exact ⟨if_pos rfl, List.ne_nil_of_mem hlgroup⟩
    group := by
      intro i x hx j hj
      rw [hmem] at hj
      split at hj
      · -- the lock itself: its node is the one of `k`
        rename_i hjl
        rw [hjl]
        have hik : i = m ∧ x = k := by
          rcases hold i x hx with hx | ⟨hi, hxk, -⟩
          · rcases hk with hk | hk
            · exact h.node_unique hx hk hj
            · have hin := (h.node i x hx).1
              rw [hj, hk, hout] at hin
              cases hin
          · exact ⟨hi, hxk⟩
        rw [hik.1, hik.2]
        exact ⟨hmode', hextent', hlgranted⟩
      · rename_i hjl
        rw [hother j hjl]
        rcases hold i x hx with hx | ⟨-, hxk, hkl⟩
        · obtain ⟨hm, he, hg⟩ := h.group i x hx j hj
          rw [hgranted]
          exact ⟨hm, he, List.mem_append_left _ hg⟩
        · rw [hxk, hkl, hown, List.mem_singleton] at hj
          exact absurd hj hjl
    inIntree := by
      intro n hn
      rw [hmarks] at hn
      split at hn
      · rename_i hnk
        exact ⟨m, k, (hkeys m k).mpr (.inr ⟨rfl, rfl⟩), hnk.symm⟩
      · obtain ⟨i, x, hx, hxn⟩ := h.inIntree n hn
        exact ⟨i, x, (hkeys i x).mpr (.inl hx), hxn⟩
    attached := by
      intro i n
      rw [hmem]
      split
      · rename_i hil
        rw [hil, htree', Option.some_inj]
        exact eq_comm
      · rename_i hil
        rw [hother i hil]
        exact h.attached i n
    groupNodup := hnodup
    granted := by
      intro i hi
      rw [hgranted, List.mem_append, List.mem_singleton] at hi
      by_cases hil : i = l
      · rw [hil]
        exact ⟨k.1, htree', by rw [hmarks, if_pos rfl]⟩
      · obtain ⟨n, htree, hin⟩ := h.granted i (hi.resolve_right hil)
        refine ⟨n, by rw [hother i hil, htree], ?_⟩
        rw [hmarks, hin, ite_self]
    waiting := by
      intro i hi
      rw [hwaiting] at hi
      rw [hother i fun hil => hlinked (.inr (hil ▸ hi))]
      exact h.waiting i hi
    links := by
      rw [hgranted, hwaiting, List.append_assoc, List.singleton_append, List.nodup_middle,
        List.nodup_cons, List.mem_append]
      exact ⟨hlinked, h.links⟩
    compatible := hcompat }

/-- The lock goes to the group of a node that has been found. -/
theorem joinGroup_found {found : Nat} (htree : (s.locks l).treeNode = some l)
    (hown : s.liGroup l = [l]) (hne : found ≠ l) :
    joinGroup s l (some found) = .ok { setLock s l { s.locks l with treeNode := some found } with
      liGroup := fun i => if i = found then s.liGroup found ++ [l]
        else if i = l then [] else s.liGroup i } := by
  have hdetach := intervalDetach_eq htree (by simp [hown])
  rw [joinGroup, hdetach]
  simp only [hown, List.erase_cons_head, if_true, ok_bind, intervalAttach, setLock_locks_self,
    check_true, ne_eq, reduceCtorEq, not_false_eq_true, if_neg hne]
  congr 2
  funext i
  dsimp only [setLock]
  split <;> rfl

/-- The lock `l` has joined the group of the node of `k`: a node of the tree of its mode, or its
own one, which is in the tree now. -/
structure Joined (s s' : Resource) (l : Nat) (k : Nat × IntervalExtent) : Prop where
  node : k ∈ keys (s.itree (s.locks l).reqMode) ∧ k.1 ≠ l ∨ k.1 = l
  extent : k.2 = (s.locks l).extent
  locks : ∀ i, s'.locks i = if i = l then { s.locks l with treeNode := some k.1 } else s.locks i
  liGroup : ∀ i, s'.liGroup i = if i = k.1 then if k.1 = l then [l] else s.liGroup k.1 ++ [l]
    else if i = l then [] else s.liGroup i
  inIntree : ∀ i, s'.inIntree i = if i = k.1 then true else s.inIntree i
  wf : WF (s'.itree (s.locks l).reqMode)
  keys : ∀ x, x ∈ keys (s'.itree (s.locks l).reqMode) ↔
    x ∈ keys (s.itree (s.locks l).reqMode) ∨ x = k
  itree : ∀ m, m ≠ (s.locks l).reqMode → s'.itree m = s.itree m
  granted : s'.granted = s.granted ++ [l]
  waiting : s'.waiting = s.waiting

/-- The last part of `ldlm_extent_add_lock`. -/
theorem resourceAddGranted_ok (hdestroyed : (s.locks l).destroyed = false)
    (hok : resourceAddGranted s l = .ok s') : s' = { s with granted := s.granted ++ [l] } := by
  rw [resourceAddGranted, hdestroyed] at hok
  obtain ⟨-, -, hok⟩ := bind_eq_ok.mp hok
  cases hok
  rfl

/-- A lock with its own node that is added joins a group. -/
theorem extentAddLock_joined (htree : (s.locks l).treeNode = some l) (hown : s.liGroup l = [l])
    (hin : s.inIntree l = false) (hdestroyed : (s.locks l).destroyed = false)
    (hwf : WF (s.itree (s.locks l).reqMode))
    (hnodes : ∀ x ∈ keys (s.itree (s.locks l).reqMode), s.inIntree x.1 = true)
    (hok : extentAddLock s l = .ok s') : ∃ k, Joined s s' l k := by
  obtain ⟨-, -, hok⟩ := bind_eq_ok.mp hok
  obtain ⟨n, hn, hok⟩ := bind_eq_ok.mp hok
  rw [require_eq_ok, htree] at hn
  obtain rfl := Option.some.inj hn
  obtain ⟨r, hinsert, hok⟩ := bind_eq_ok.mp hok
  obtain ⟨u, hjoin, hok⟩ := bind_eq_ok.mp hok
  obtain ⟨-, -, hinsert⟩ := bind_eq_ok.mp hinsert
  obtain ⟨-, -, hinsert⟩ := bind_eq_ok.mp hinsert
  obtain ⟨q, hq, hinsert⟩ := bind_eq_ok.mp hinsert
  rw [require_eq_ok] at hq
  rcases @insert_spec _ ⟨l, (s.locks l).extent, (s.locks l).extent.end_⟩ hwf rfl with
    ⟨x, t, heq, hx, hextent, hwf', hkeys⟩ | ⟨t, as, bs, heq, hwf', hkeys, hkeys'⟩
  · -- the node that has been found
    obtain rfl := Option.some.inj (heq.symm.trans hq)
    cases hinsert
    have hxin := hnodes _ hx
    have hne : x.addr ≠ l := by
      rintro rfl
      exact Bool.false_ne_true (hin.symm.trans hxin)
    obtain rfl := Except.ok.inj (hjoin.symm.trans (joinGroup_found htree hown hne))
    obtain rfl := resourceAddGranted_ok (by simpa using hdestroyed) hok
    exact ⟨x.key, {
      node := .inl ⟨hx, hne⟩
      extent := hextent
      locks := fun _ => rfl
      liGroup := fun i => by simp [IntervalNode.key, hne]
      inIntree := fun i => by
        dsimp only [setLock]
        split
        · rename_i hi
          rw [hi, hxin]
        · rfl
      wf := by simpa [setLock] using hwf'
      keys := by simp [setLock, hkeys, hx]
      itree := fun m hm => by simp [setLock, hm]
      granted := rfl
      waiting := rfl }⟩
  · -- its own node, which is new
    obtain rfl := Option.some.inj (heq.symm.trans hq)
    cases hinsert
    cases hjoin
    obtain rfl := resourceAddGranted_ok (by exact hdestroyed) hok
    exact ⟨(l, (s.locks l).extent), {
      node := .inr rfl
      extent := rfl
      locks := fun i => by
        dsimp only
        rw [← htree]
        split
        · rename_i hi
          rw [hi]
        · rfl
      liGroup := fun i => by
        dsimp only
        rw [if_pos rfl]
        split
        · rename_i hi
          rw [hi, hown]
        · rfl
      inIntree := fun i => by simp
      wf := by simp [hwf']
      keys := fun x => by
        simp only [if_true, hkeys, hkeys', IntervalNode.key, List.mem_append, List.mem_cons]
        tauto
      itree := fun m hm => by simp [hm]
      granted := rfl
      waiting := rfl }⟩

@[simp]
theorem setLock_setLock (s : Resource) (l : Nat) (a b : Lock) :
    setLock (setLock s l a) l b = setLock s l b := by
  simp only [setLock]
  congr 1
  funext i
  split <;> rfl

/-- A lock that has not been granted joins a group when it is granted. -/
theorem Inv.grant_joined (h : Inv s) {e : IntervalExtent} (hmode : (s.locks l).grantedMode = none)
    (hdestroyed : (s.locks l).destroyed = false)
    (hok : grantLock (setLock s l { s.locks l with extent := e }) l = .ok s') :
    ∃ k, Joined (setLock s l { s.locks l with
      extent := e, grantedMode := some (s.locks l).reqMode }) s' l k := by
  obtain ⟨htree, hown, hin, -⟩ := h.fresh l hmode
  rw [grantLock, setLock_setLock, setLock_locks_self] at hok
  refine extentAddLock_joined (by simpa using htree) hown hin (by simpa using hdestroyed)
    (h.wf _) (fun x hx => (h.node _ x hx).1) hok

/-- **Granting a lock.** The lock has not been granted and is in no list, its extent overlaps no
tree of a mode that is not compatible, and the granted `GROUP` locks have its `gid`. -/
theorem Inv.grant (h : Inv s) {e : IntervalExtent} (hmode : (s.locks l).grantedMode = none)
    (hdestroyed : (s.locks l).destroyed = false) (hlinked : ¬ Linked s l)
    (hclear : ClearOf s (s.locks l).reqMode modes e)
    (hgid : (s.locks l).reqMode = .group → ∀ i ∈ s.granted,
      (s.locks i).grantedMode = some .group → (s.locks i).gid = (s.locks l).gid)
    (hok : grantLock (setLock s l { s.locks l with extent := e }) l = .ok s') : Inv s' := by
  obtain ⟨htree, hown, -, -⟩ := h.fresh l hmode
  obtain ⟨k, hnode, hextent, hlocks, hgroups, hmarks, hwf, hkeys, htrees, hgranted, hwaiting⟩ :=
    h.grant_joined hmode hdestroyed hok
  simp only [setLock_locks_self, setLock_itree] at hnode hextent hlocks hwf hkeys htrees
  simp only [setLock_liGroup, setLock_inIntree] at hgroups hmarks
  rw [setLock_granted] at hgranted
  rw [setLock_waiting] at hwaiting
  have hother : ∀ i, i ≠ l → s'.locks i = s.locks i := by
    intro i hi
    rw [hlocks, if_neg hi, setLock_locks_ne hi]
  have hself : s'.locks l = { s.locks l with
      extent := e, grantedMode := some (s.locks l).reqMode, treeNode := some k.1 } := by
    rw [hlocks, if_pos rfl]
  have hleft : ∀ n, l ∈ s.liGroup n → n = l := by
    intro n hn
    have hn' := (h.attached l n).mpr hn
    rw [htree] at hn'
    exact (Option.some.inj hn').symm
  have hcompat : Compatible s' := by
    refine Compatible.snoc h (h.not_granted hmode) (m := (s.locks l).reqMode) ?_ ?_ ?_ hother
      hgranted
    · rw [hself]
      exact hclear
    · rw [hself]
      exact hgid
    · rw [hself]
  refine h.join (k := k) hmode hlinked (hnode.imp_left And.left) ?_ hother ?_ ?_ ?_ ?_ ?_ hmarks
    hgranted hwaiting hcompat
  · rw [hself]
    exact ⟨rfl, hextent.symm, rfl, h.request l⟩
  · intro i
    by_cases hi : i = (s.locks l).reqMode
    · rw [hi]
      exact hwf
    · rw [htrees i hi]
      exact h.wf i
  · intro i x
    by_cases hi : i = (s.locks l).reqMode
    · simp [hi, hkeys]
    · simp [hi, htrees i hi]
  · intro n hnl hnk
    rw [hgroups, if_neg hnk, if_neg hnl]
  · intro n i
    rw [hgroups]
    by_cases hnk : n = k.1
    · rw [if_pos hnk, hnk]
      by_cases hkl : k.1 = l
      · rw [if_pos hkl, hkl, hown]
        simp
      · rw [if_neg hkl, List.mem_append, List.mem_singleton]
        by_cases hil : i = l <;> simp [hil]
    · rw [if_neg hnk]
      by_cases hnl : n = l
      · rw [if_pos hnl, hnl, hown]
        by_cases hil : i = l <;> simp [hil, hnl ▸ hnk]
      · rw [if_neg hnl]
        by_cases hil : i = l
        · rw [hil, if_pos rfl]
          exact ⟨fun hl => absurd (hleft n hl) hnl, fun hk => absurd hk hnk⟩
        · rw [if_neg hil]
  · intro n
    rw [hgroups]
    split
    · split
      · exact List.nodup_singleton l
      · rename_i hkl
        rw [← List.concat_eq_append]
        exact (h.groupNodup k.1).concat fun hl => hkl (hleft k.1 hl)
    split
    · exact List.nodup_nil
    · exact h.groupNodup n

end LustreSimulator.Ldlm
