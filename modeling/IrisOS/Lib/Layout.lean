import IrisOS.Lib.LinkHeap
import IrisOS.Lib.Forest

/-! When a heap of links lays out the sibling lists of a forest, and which stores turn the
layout of one family of lists into the layout of another. -/
namespace IrisOS.Lib
open Function List Links
variable {S : Type*}

/-- A list without repetition, taken apart at one of its elements. -/
theorem nodup_middle_iff {l1 l2 : List S} {a : S} : (l1 ++ a :: l2).Nodup ↔
    a ∉ l1 ∧ a ∉ l2 ∧ l1.Nodup ∧ l2.Nodup ∧ ∀ x ∈ l1, x ∉ l2 := by
  rw [nodup_middle, nodup_cons, nodup_append]
  simp only [mem_append, not_or]
  constructor
  · rintro ⟨⟨h1, h2⟩, h3, h4, h5⟩
    exact ⟨h1, h2, h3, h4, fun x hx hx' => h5 x hx x hx' rfl⟩
  · rintro ⟨h1, h2, h3, h4, h5⟩
    refine ⟨⟨h1, h2⟩, h3, h4, ?_⟩
    rintro x hx _ hy rfl
    exact h5 x hx hy

variable {l : List S} {x : S}

theorem ends_ne (hx : x ∉ l) : l.head? ≠ some x ∧ l.getLast? ≠ some x :=
  ⟨fun e => hx (mem_of_mem_head? e), fun e => hx (mem_of_getLast? e)⟩

/-- Membership once one list is replaced and another, which wins, is emptied. -/
theorem mem_update_update [DecidableEq S] {kids : Owner S → List S}
    {n1 n2 m : Owner S} : x ∈ update (update kids n1 l) n2 [] m ↔
      m ≠ n2 ∧ (m = n1 ∧ x ∈ l ∨ m ≠ n1 ∧ x ∈ kids m) := by
  by_cases h2 : m = n2
  · simp [h2]
  · by_cases h1 : m = n1
    · subst h1; simp [h2]
    · simp [h1, h2]

/-! ## The place of a node among its siblings -/

/-- The place of `s` in the sibling list of `n`, which is not the list of its own children. -/
structure Spot (kids : Owner S → List S) (n : Owner S) (s : S) (l1 l2 : List S) : Prop where
  laid : Laid kids
  ne : n ≠ .node s
  list : kids n = l1 ++ s :: l2

namespace Spot
variable {kids : Owner S → List S} {n : Owner S} {s : S} {l1 l2 L : List S}
  (hp : Spot kids n s l1 l2)
include hp

theorem mem : s ∈ kids n := by simp [hp.list]

theorem mem_iff : x ∈ kids n ↔ x ∈ l1 ∨ x = s ∨ x ∈ l2 := by
  rw [hp.list, mem_append, mem_cons]

theorem split : s ∉ l1 ∧ s ∉ l2 ∧ l1.Nodup ∧ l2.Nodup ∧ ∀ x ∈ l1, x ∉ l2 :=
  nodup_middle_iff.mp (hp.list ▸ hp.laid.nodup n)

/-- No child of `s` is a sibling of it. -/
theorem notMem_of_child (hx : x ∈ kids (.node s)) : x ∉ kids n :=
  fun e => hp.ne (hp.laid.unique e hx)

theorem notMem_child (hx : x ∈ kids n) : x ∉ kids (.node s) :=
  fun e => hp.notMem_of_child e hx

theorem apart (hx : x ∉ kids n) : x ≠ s ∧ x ∉ l1 ∧ x ∉ l2 := by
  simp only [hp.mem_iff, not_or] at hx
  exact ⟨hx.2.1, hx.1, hx.2.2⟩

/-- Whatever their order, the children of `s` and its siblings are all nodes of the two lists but
`s` itself. -/
theorem mem_merged (hL : L.Perm (kids (.node s) ++ (l1 ++ l2))) :
    x ∈ L ↔ x ≠ s ∧ (x ∈ kids n ∨ x ∈ kids (.node s)) := by
  obtain ⟨hs1, hs2, -⟩ := hp.split
  have hK : x ∈ kids (.node s) → x ≠ s := fun hx => (hp.apart (hp.notMem_of_child hx)).1
  have h1 : x ∈ l1 → x ≠ s := fun hx e => hs1 (e ▸ hx)
  have h2 : x ∈ l2 → x ≠ s := fun hx e => hs2 (e ▸ hx)
  rw [hL.mem_iff, hp.mem_iff]
  simp only [mem_append]
  tauto

theorem nodup_merged (hL : L.Perm (kids (.node s) ++ (l1 ++ l2))) : L.Nodup := by
  obtain ⟨-, -, hd1, hd2, hdisj⟩ := hp.split
  rw [hL.nodup_iff]
  refine (hp.laid.nodup _).append (hd1.append hd2 fun x h1 h2 => hdisj x h1 h2) fun x hK hx => ?_
  have hx' := hp.apart (hp.notMem_of_child hK)
  rcases mem_append.mp hx with hx | hx
  · exact hx'.2.1 hx
  · exact hx'.2.2 hx

theorem mem_spliced (hx : x ∈ l1 ++ (kids (.node s) ++ l2)) :
    x ≠ s ∧ (x ∈ kids n ∨ x ∈ kids (.node s)) :=
  (hp.mem_merged (perm_append_comm_assoc ..)).mp hx

/-- A node other than `s` that is in no list after the splice was in none before. -/
theorem notMem_of_spliced [DecidableEq S] (hxs : x ≠ s)
    (hx : ∀ m, x ∉ update (update kids n (l1 ++ (kids (.node s) ++ l2))) (.node s) [] m)
    (m : Owner S) : x ∉ kids m := by
  intro hm
  by_cases hms : m = .node s
  · exact hx n (mem_update_update.mpr ⟨hp.ne, .inl ⟨rfl, by simp [← hms, hm]⟩⟩)
  refine hx m (mem_update_update.mpr ⟨hms, ?_⟩)
  by_cases hmn : m = n
  · refine .inl ⟨hmn, (hp.mem_merged (perm_append_comm_assoc ..)).mpr ⟨hxs, .inl (hmn ▸ hm)⟩⟩
  · exact .inr ⟨hmn, hm⟩

end Spot

section
variable [DecidableEq S] {F : Forest S} {n : Owner S} {s : S} {l1 l2 L : List S}

theorem Spot.detachSpec (hp : Spot F.kids n s l1 l2)
    (hL : L.Perm (F.kids (.node s) ++ (l1 ++ l2))) :
    F.DetachSpec s (update (update F.kids n L) (.node s) []) := by
  intro m x
  rw [mem_update_update, hp.mem_merged hL]
  constructor
  · rintro ⟨hms, ⟨rfl, hx, hx'⟩ | ⟨hmn, hx⟩⟩
    · exact ⟨hx, hms, hx'.imp id fun hK => ⟨hK, hp.mem⟩⟩
    · exact ⟨fun e => hmn (F.unique hx (e ▸ hp.mem)), hms, .inl hx⟩
  rintro ⟨hx, hms, hx' | ⟨hK, hsm⟩⟩
  · by_cases hmn : m = n
    · subst hmn
      exact ⟨hms, .inl ⟨rfl, hx, .inl hx'⟩⟩
    · exact ⟨hms, .inr ⟨hmn, hx'⟩⟩
  · exact ⟨hms, .inl ⟨F.unique hsm hp.mem, hx, .inr hK⟩⟩

/-- Merging the children of `s` into the list it leaves takes `s` out of the forest, in whichever
order the merged list is. -/
theorem Forest.exists_detaches (F : Forest S) (hn : F.kids n = l1 ++ s :: l2)
    (hL : L.Perm (F.kids (.node s) ++ (l1 ++ l2))) (hleaf : F.kids (.node s) = [] → L = l1 ++ l2) :
    ∃ F', F'.kids = update (update F.kids n L) (.node s) [] ∧
      F.Detaches s F' := by
  have hns : n ≠ .node s := by
    rintro rfl
    have hs : F.Child s s := by simp [Forest.Child, hn]
    exact hs.ne rfl
  have hp : Spot F.kids n s l1 l2 := ⟨F.laid, hns, hn⟩
  have hspec := hp.detachSpec hL
  have hnd : ∀ m, (update (update F.kids n L) (.node s) [] m).Nodup := by
    intro m
    by_cases hms : m = .node s
    · simp [hms]
    · by_cases hmn : m = n
      · subst hmn
        simpa [hms] using hp.nodup_merged hL
      · simpa [hms, hmn] using F.nodup m
  refine ⟨F.detach s _ hnd hspec, rfl, hspec, fun m hms hsm => ?_, fun hK m => ?_⟩
  · have hmn : m ≠ n := fun e => hsm (e ▸ hp.mem)
    change update _ _ _ m = _
    rw [update_of_ne hms, update_of_ne hmn]
  change (update (update F.kids n L) (.node s) [] m).Sublist _
  by_cases hms : m = .node s
  · simp [hms]
  by_cases hmn : m = n
  · subst hmn
    rw [update_of_ne hms, update_self, hleaf hK, hn]
    exact (sublist_cons_self s l2).append_left l1
  · rw [update_of_ne hms, update_of_ne hmn]

end

/-! ## Layouts -/

/-- The heap stores the sibling lists `kids`: doubly linked, with parent and first-child pointers,
and no links elsewhere. -/
structure Represents (h : LinkHeap S) (kids : Owner S → List S) : Prop where
  seg : ∀ n, Seg h none (kids n) none
  parent : ∀ {n s}, s ∈ kids n → (h s).parent = n.toOption
  first : ∀ s, (h s).firstChild = (kids (.node s)).head?
  outside : ∀ {s}, (∀ n, s ∉ kids n) → h s = Links.empty

namespace Represents
variable {h h' : LinkHeap S} {kids : Owner S → List S} {F : Forest S} {n : Owner S} {a c p s : S}
  {l1 l2 : List S}

theorem parent_eq_some (hR : Represents h F.kids) : (h c).parent = some p ↔ F.Child p c := by
  constructor
  · intro hc
    by_cases hm : ∃ n, c ∈ F.kids n
    · obtain ⟨n, hn⟩ := hm
      have := (hR.parent hn).symm.trans hc
      rw [Owner.toOption_eq_some.mp this] at hn
      exact hn
    · have := hR.outside (not_exists.mp hm)
      simp [this, empty] at hc
  · exact hR.parent

section

variable (hR : Represents h kids)
include hR

theorem first_eq_some : (h p).firstChild = some c ↔ ∃ l, kids (.node p) = c :: l := by
  rw [hR.first]
  cases kids (.node p) <;> simp [eq_comm]

theorem first_eq_none : (h p).firstChild = none ↔ kids (.node p) = [] := by
  rw [hR.first, head?_eq_none_iff]

theorem nextSib_eq (hn : kids n = l1 ++ a :: l2) : (h a).nextSib = l2.head? := by
  have := hR.seg n
  rw [hn] at this
  simpa using this.nextSib_eq

theorem prevSib_eq (hn : kids n = l1 ++ a :: l2) : (h a).prevSib = l1.getLast? := by
  have := hR.seg n
  rw [hn] at this
  simpa using this.prevSib_eq

/-- The next-sibling link joins consecutive nodes of one list, and so does the previous-sibling
link the other way round. -/
theorem nextSib_eq_some : (h a).nextSib = some c ↔ ∃ n l1 l2, kids n = l1 ++ a :: c :: l2 := by
  constructor
  · intro ha
    by_cases hm : ∃ n, a ∈ kids n
    · obtain ⟨n, hn⟩ := hm
      obtain ⟨l1, l2, hl⟩ := append_of_mem hn
      have := (hR.nextSib_eq hl).symm.trans ha
      obtain ⟨l, rfl⟩ := head?_eq_some_iff.mp this
      exact ⟨n, l1, l, hl⟩
    · simp [hR.outside (not_exists.mp hm), empty] at ha
  · rintro ⟨n, l1, l2, hn⟩
    simpa using hR.nextSib_eq hn

theorem prevSib_eq_some : (h c).prevSib = some a ↔ ∃ n l1 l2, kids n = l1 ++ a :: c :: l2 := by
  constructor
  · intro hc
    by_cases hm : ∃ n, c ∈ kids n
    · obtain ⟨n, hn⟩ := hm
      obtain ⟨l1, l2, hl⟩ := append_of_mem hn
      have := (hR.prevSib_eq hl).symm.trans hc
      obtain ⟨l, rfl⟩ := getLast?_eq_some_iff.mp this
      exact ⟨n, l, l2, by simpa using hl⟩
    · simp [hR.outside (not_exists.mp hm), empty] at hc
  · rintro ⟨n, l1, l2, hn⟩
    have : kids n = (l1 ++ [a]) ++ c :: l2 := by simpa using hn
    simpa using hR.prevSib_eq this

theorem nextSib_iff_prevSib : (h a).nextSib = some c ↔ (h c).prevSib = some a :=
  hR.nextSib_eq_some.trans hR.prevSib_eq_some.symm

end

/-! A link leads to another node of the forest. -/

section

variable (hR : Represents h F.kids)
include hR

theorem parent_mem (hx : (h x).parent = some a) : F.Mem a ∧ a ≠ x :=
  have hc := hR.parent_eq_some.mp hx
  ⟨hc.owner, hc.ne⟩

theorem first_mem (hx : (h x).firstChild = some a) : F.Mem a ∧ a ≠ x := by
  obtain ⟨l, hl⟩ := hR.first_eq_some.mp hx
  have hc : F.Child x a := by simp [Forest.Child, hl]
  exact ⟨hc.mem, hc.ne.symm⟩

theorem nextSib_mem (hx : (h x).nextSib = some a) : F.Mem a ∧ a ≠ x := by
  obtain ⟨n, l1, l2, hn⟩ := hR.nextSib_eq_some.mp hx
  refine ⟨⟨n, by simp [hn]⟩, ?_⟩
  rintro rfl
  exact (nodup_middle_iff.mp (hn ▸ F.nodup n)).2.1 (by simp)

theorem prevSib_mem (hx : (h x).prevSib = some a) : F.Mem a ∧ a ≠ x := by
  have hx := hR.nextSib_iff_prevSib.mpr hx
  obtain ⟨n, l1, l2, hn⟩ := hR.nextSib_eq_some.mp hx
  exact ⟨⟨n, by simp [hn]⟩, (hR.nextSib_mem hx).2.symm⟩

/-- The first child of `p` is the one child that has no sibling before it. -/
theorem first_eq_some_iff :
    (h p).firstChild = some c ↔ (h c).parent = some p ∧ (h c).prevSib = none := by
  rw [hR.first_eq_some, hR.parent_eq_some]
  constructor
  · rintro ⟨l, hl⟩
    have hl' : F.kids (.node p) = [] ++ c :: l := hl
    exact ⟨by simp [Forest.Child, hl], hR.prevSib_eq hl'⟩
  · rintro ⟨hc, hprev⟩
    obtain ⟨l1, l2, hl⟩ := append_of_mem hc
    rw [hR.prevSib_eq hl, getLast?_eq_none_iff] at hprev
    exact ⟨l2, by rw [hl, hprev, nil_append]⟩

end

/-! ## Stores that relink lists -/

section
variable [DecidableEq S]

/-- A node without links is the whole of a top-level list that was empty. -/
theorem insertTop (hR : Represents h F.kids) {k : ℕ} (hc : ¬ F.Mem c)
    (hk : F.kids (.top k) = []) : Represents h (update F.kids (.top k) [c]) := by
  have hempty : h c = empty := hR.outside fun n hn => hc ⟨n, hn⟩
  refine ⟨fun n => ?_, fun {n x} hx => ?_, fun x => ?_, fun {x} hx => ?_⟩
  · by_cases hn : n = .top k
    · subst hn
      simp [Seg, hempty, empty]
    · simpa [hn] using hR.seg n
  · by_cases hn : n = .top k
    · subst hn
      have : x = c := by simpa using hx
      simp [this, hempty, empty]
    · exact hR.parent (by simpa [hn] using hx)
  · simpa using hR.first x
  · refine hR.outside fun n hn => hx n ?_
    by_cases hnk : n = .top k
    · subst hnk
      simp [hk] at hn
    · simpa [hnk] using hn

/-- `h'` is `h` after the stores that put the children of `s` in the place of `s`, each link given
by the lists around that place. -/
structure Splices (h h' : LinkHeap S) (kids : Owner S → List S) (n : Owner S) (s : S)
    (l1 l2 : List S) : Prop where
  self : h' s = Links.empty
  parent : ∀ x ≠ s, (h' x).parent =
    if (h x).parent = some s then n.toOption else (h x).parent
  first : ∀ x ≠ s, (h' x).firstChild = if l1.getLast? = none ∧ n.toOption = some x
    then (kids (.node s)).head?.or l2.head? else (h x).firstChild
  next : ∀ x ≠ s, (h' x).nextSib = if (kids (.node s)).getLast? = some x then l2.head?
    else if l1.getLast? = some x then (kids (.node s)).head?.or l2.head? else (h x).nextSib
  prev : ∀ x ≠ s, (h' x).prevSib =
    if l2.head? = some x then (kids (.node s)).getLast?.or l1.getLast?
    else if (kids (.node s)).head? = some x then l1.getLast? else (h x).prevSib

namespace Splices
variable (hh : Splices h h' kids n s l1 l2) (hR : Represents h kids) (hp : Spot kids n s l1 l2)
include hh hR hp

/-! The three stretches of the new list: the siblings before `s`, its children, and those after. -/

theorem seg_before : Seg h' none l1 ((kids (.node s) ++ l2).head?.or none) := by
  obtain ⟨hs1, -, hd1, -, hdisj⟩ := hp.split
  have hseg := hR.seg n
  rw [hp.list, Seg.append_iff] at hseg
  refine hseg.1.retarget_last hd1 (fun x hx => ?_) fun x hx => ?_
  all_goals
    have hxs : x ≠ s := fun e => hs1 (e ▸ hx)
    obtain ⟨hx1, hx2⟩ := ends_ne (hp.notMem_child (hp.mem_iff.mpr (.inl hx)))
    obtain ⟨hx3, -⟩ := ends_ne (hdisj x hx)
  · simp [hh.prev x hxs, hx1, hx3]
  · simp [hh.next x hxs, hx2, head?_append]

theorem seg_children : Seg h' (l1.getLast?.or none) (kids (.node s)) (l2.head?.or none) := by
  refine (hR.seg _).retarget (hp.laid.nodup _) (fun x hx => ?_) fun x hx => ?_
  all_goals
    obtain ⟨hxs, hx1, hx2⟩ := hp.apart (hp.notMem_of_child hx)
    have h1 := (ends_ne hx1).2
    have h2 := (ends_ne hx2).1
  · simp [hh.prev x hxs, h2]
  · simp [hh.next x hxs, h1]

theorem seg_after :
    Seg h' ((kids (.node s)).getLast?.or (l1.getLast?.or none)) l2 none := by
  obtain ⟨-, hs2, -, hd2, hdisj⟩ := hp.split
  have hseg := hR.seg n
  rw [hp.list, Seg.append_iff] at hseg
  obtain ⟨-, -, -, hl2⟩ := hseg
  refine hl2.retarget_head hd2 (fun x hx => ?_) fun x hx => ?_
  all_goals
    have hxs : x ≠ s := fun e => hs2 (e ▸ hx)
    obtain ⟨hx1, hx2⟩ := ends_ne (hp.notMem_child (hp.mem_iff.mpr (.inr (.inr hx))))
    obtain ⟨-, hx3⟩ := ends_ne fun e => hdisj x e hx
  · simp [hh.prev x hxs, hx1]
  · simp [hh.next x hxs, hx2, hx3]

/-- Lists other than the two that change keep their links. -/
theorem seg_other {m : Owner S} (hms : m ≠ .node s) (hmn : m ≠ n) : Seg h' none (kids m) none := by
  refine (hR.seg m).congr fun x hx => ?_
  obtain ⟨hxs, hx1, hx2⟩ := hp.apart fun e => hmn (hp.laid.unique hx e)
  obtain ⟨h3, h4⟩ := ends_ne fun e => hms (hp.laid.unique hx e)
  simp [hh.prev x hxs, hh.next x hxs, (ends_ne hx1).2, (ends_ne hx2).1, h3, h4]

theorem parent_spliced (hx : x ∈ l1 ++ (kids (.node s) ++ l2)) :
    (h' x).parent = n.toOption := by
  obtain ⟨hxs, hx⟩ := hp.mem_spliced hx
  rw [hh.parent x hxs]
  rcases hx with hx | hx <;> simp [hR.parent hx]

theorem parent_other {m : Owner S} (hms : m ≠ .node s) (hmn : m ≠ n) (hx : x ∈ kids m) :
    (h' x).parent = m.toOption := by
  have hms' : m.toOption ≠ some s := fun e => hms (Owner.toOption_eq_some.mp e)
  rw [hh.parent x fun e => hmn (hp.laid.unique hx (e ▸ hp.mem))]
  simp [hR.parent hx, hms']

theorem first_spliced (x : S) : (h' x).firstChild =
    (update (update kids n (l1 ++ (kids (.node s) ++ l2))) (.node s) [] (.node x)).head? := by
  by_cases hxs : x = s
  · simp [hxs, hh.self, empty]
  have hne : Owner.node x ≠ .node s := by simpa using hxs
  rw [hh.first x hxs, update_of_ne hne]
  by_cases hnx : n = .node x
  · subst hnx
    cases l1 with
    | nil => simp [head?_append]
    | cons a l => simp [hR.first x, hp.list]
  · rw [update_of_ne (Ne.symm hnx)]
    simp [Owner.toOption_eq_some, hnx, hR.first x]

/-- A node that was in no list is given no link. -/
theorem outside (hxs : x ≠ s) (hx : ∀ m, x ∉ kids m) : h' x = Links.empty := by
  have hno : n ≠ .node x := by
    rintro rfl
    obtain ⟨m, hm⟩ := hp.laid.owner_mem hp.mem
    exact hx m hm
  obtain ⟨-, hx1, hx2⟩ := hp.apart (hx n)
  obtain ⟨h3, h4⟩ := ends_ne (hx (.node s))
  have hempty := hR.outside hx
  rw [← hempty]
  apply Links.ext
  · simp [hh.parent x hxs, hempty, Links.empty]
  · simp [hh.first x hxs, Owner.toOption_eq_some, hno]
  · simp [hh.next x hxs, (ends_ne hx1).2, h4]
  · simp [hh.prev x hxs, (ends_ne hx2).1, h3]

theorem represents :
    Represents h' (update (update kids n (l1 ++ (kids (.node s) ++ l2))) (.node s) []) := by
  refine ⟨fun m => ?_, fun {m x} hx => ?_, hh.first_spliced hR hp, fun {x} hx => ?_⟩
  · by_cases hms : m = .node s
    · subst hms; simp
    rw [update_of_ne hms]
    by_cases hmn : m = n
    · subst hmn
      rw [update_self, Seg.append_iff, Seg.append_iff]
      exact ⟨hh.seg_before hR hp, hh.seg_children hR hp, hh.seg_after hR hp⟩
    · rw [update_of_ne hmn]
      exact hh.seg_other hR hp hms hmn
  · obtain ⟨hms, ⟨rfl, hxl⟩ | ⟨hmn, hxm⟩⟩ := mem_update_update.mp hx
    · exact hh.parent_spliced hR hp hxl
    · exact hh.parent_other hR hp hms hmn hxm
  · by_cases hxs : x = s
    · rw [hxs, hh.self]
    · exact hh.outside hR hp hxs (hp.notMem_of_spliced hxs hx)

end Splices

/-- Stores that read the links of `s` itself put its children in its place and leave it without
links. -/
theorem replace (hR : Represents h kids) (hk : Laid kids) (hne : n ≠ .node s)
    (hn : kids n = l1 ++ s :: l2) (hs : h' s = Links.empty) (hpar : ∀ x ≠ s, (h' x).parent =
      if (h x).parent = some s then (h s).parent else (h x).parent)
    (hfirst : ∀ x ≠ s, (h' x).firstChild = if (h s).prevSib = none ∧ (h s).parent = some x
      then (h s).firstChild.or (h s).nextSib else (h x).firstChild)
    (hnext : ∀ x ≠ s, (h' x).nextSib =
      if (kids (.node s)).getLast? = some x then (h s).nextSib
      else if (h s).prevSib = some x then (h s).firstChild.or (h s).nextSib else (h x).nextSib)
    (hprev : ∀ x ≠ s, (h' x).prevSib =
      if (h s).nextSib = some x then (kids (.node s)).getLast?.or (h s).prevSib
      else if (h s).firstChild = some x then (h s).prevSib else (h x).prevSib) :
    Represents h' (update (update kids n (l1 ++ (kids (.node s) ++ l2))) (.node s) []) := by
  have hp : Spot kids n s l1 l2 := ⟨hk, hne, hn⟩
  have hsprev : (h s).prevSib = l1.getLast? := hR.prevSib_eq hn
  have hsnext : (h s).nextSib = l2.head? := hR.nextSib_eq hn
  have hspar : (h s).parent = n.toOption := hR.parent hp.mem
  simp only [hsprev, hsnext, hspar, hR.first s] at hpar hfirst hnext hprev
  have hh : Splices h h' kids n s l1 l2 := ⟨hs, hpar, hfirst, hnext, hprev⟩
  exact hh.represents hR hp

/-- `h'` is `h` after the stores that put the list of `q`, whose last node is `z`, in front of the
children of `p`. -/
structure Prepends (h h' : LinkHeap S) (kids : Owner S → List S) (p : S) (q : Owner S) (z : S) :
    Prop where
  ne : Owner.node p ≠ q
  last : (kids q).getLast? = some z
  parent : ∀ x, (h' x).parent = if x ∈ kids q then some p else (h x).parent
  first : ∀ x, (h' x).firstChild =
    if .node x = q then none else if x = p then (kids q).head? else (h x).firstChild
  next : ∀ x, (h' x).nextSib = if x = z then (kids (.node p)).head? else (h x).nextSib
  prev : ∀ x, (h' x).prevSib = if (kids (.node p)).head? = some x then some z else (h x).prevSib

namespace Prepends
variable {q : Owner S} {z : S} (hh : Prepends h h' kids p q z) (hR : Represents h kids)
  (hk : Laid kids)
include hh

theorem last_mem : z ∈ kids q := mem_of_getLast? hh.last

include hk

theorem notMem (hx : x ∈ kids q) : x ∉ kids (.node p) := fun e => hh.ne (hk.unique e hx)

include hR

theorem seg_moved : Seg h' none (kids q) ((kids (.node p)).head?.or none) := by
  refine (hR.seg _).retarget_last (hk.nodup _) (fun x hx => ?_) fun x hx => ?_
  · simp [hh.prev, (ends_ne (hh.notMem hk hx)).1]
  · simp [hh.next, hh.last, eq_comm]

theorem seg_kept : Seg h' ((kids q).getLast?.or none) (kids (.node p)) none := by
  refine (hR.seg _).retarget_head (hk.nodup _) (fun x hx => ?_) fun x hx => ?_
  · simp [hh.prev, hh.last]
  · have hxz : x ≠ z := fun e => hh.notMem hk hh.last_mem (e ▸ hx)
    simp [hh.next, hxz]

theorem seg_other {m : Owner S} (hmq : m ≠ q) (hmp : m ≠ .node p) : Seg h' none (kids m) none := by
  refine (hR.seg m).congr fun x hx => ?_
  have hxz : x ≠ z := fun e => hmq (hk.unique hx (e ▸ hh.last_mem))
  have hxf := (ends_ne fun e => hmp (hk.unique hx e)).1
  simp [hh.prev, hh.next, hxz, hxf]

omit hk in
theorem first_prepended (x : S) : (h' x).firstChild =
    (update (update kids (.node p) (kids q ++ kids (.node p))) q [] (.node x)).head? := by
  rw [hh.first]
  by_cases hxq : .node x = q
  · simp [hxq]
  rw [if_neg hxq, update_of_ne hxq]
  by_cases hxp : x = p
  · subst hxp
    obtain ⟨y, l, hl⟩ := exists_cons_of_ne_nil (ne_nil_of_mem hh.last_mem)
    simp [hl]
  · simp [hxp, hR.first x]

theorem outside (hp : ∃ n, p ∈ kids n) (hx : ∀ m, x ∉ kids m) : h' x = Links.empty := by
  have hxq : .node x ≠ q := by
    rintro rfl
    obtain ⟨m, hm⟩ := hk.owner_mem hh.last_mem
    exact hx m hm
  have hxp : x ≠ p := by
    rintro rfl
    obtain ⟨m, hm⟩ := hp
    exact hx m hm
  have hxz : x ≠ z := by
    rintro rfl
    exact hx _ hh.last_mem
  rw [← hR.outside hx]
  apply Links.ext
  · simp [hh.parent, hx q]
  · simp [hh.first, hxq, hxp]
  · simp [hh.next, hxz]
  · simp [hh.prev, (ends_ne (hx (.node p))).1]

end Prepends

/-- A whole list becomes the first children of a node of the forest. -/
theorem prepend (hR : Represents h kids) (hk : Laid kids) {q : Owner S} {z : S}
    (hq : Owner.node p ≠ q) (hp : ∃ n, p ∈ kids n) (hz : (kids q).getLast? = some z)
    (hpar : ∀ x, (h' x).parent = if x ∈ kids q then some p else (h x).parent)
    (hfirst : ∀ x, (h' x).firstChild =
      if .node x = q then none else if x = p then (kids q).head? else (h x).firstChild)
    (hnext : ∀ x, (h' x).nextSib = if x = z then (h p).firstChild else (h x).nextSib)
    (hprev : ∀ x, (h' x).prevSib =
      if (h p).firstChild = some x then some z else (h x).prevSib) :
    Represents h' (update (update kids (.node p) (kids q ++ kids (.node p))) q []) := by
  simp only [hR.first p] at hnext hprev
  have hh : Prepends h h' kids p q z := ⟨hq, hz, hpar, hfirst, hnext, hprev⟩
  refine ⟨fun m => ?_, fun {m x} hx => ?_, hh.first_prepended hR, fun {x} hx => ?_⟩
  · by_cases hmq : m = q
    · subst hmq; simp
    rw [update_of_ne hmq]
    by_cases hmp : m = .node p
    · subst hmp
      rw [update_self, Seg.append_iff]
      exact ⟨hh.seg_moved hR hk, hh.seg_kept hR hk⟩
    · rw [update_of_ne hmp]
      exact hh.seg_other hR hk hmq hmp
  · obtain ⟨hmq, ⟨rfl, hxl⟩ | ⟨-, hx⟩⟩ := mem_update_update.mp hx
    · rcases mem_append.mp hxl with hx | hx
      · simp [hpar, hx]
      · simp [hpar, hR.parent hx]
    · have hxq : x ∉ kids q := fun e => hmq (hk.unique hx e)
      simp [hpar, hxq, hR.parent hx]
  · refine hh.outside hR hk hp fun m hm => ?_
    by_cases hmq : m = q
    · exact hx (.node p) (mem_update_update.mpr ⟨hq, .inl ⟨rfl, by simp [← hmq, hm]⟩⟩)
    refine hx m (mem_update_update.mpr ⟨hmq, ?_⟩)
    by_cases hmp : m = .node p
    · exact .inl ⟨hmp, by simp [← hmp, hm]⟩
    · exact .inr ⟨hmp, hm⟩

/-- A new node is linked in front of the children of `p`. -/
theorem link (hR : Represents h F.kids) (hc : ¬ F.Mem c) (hp : F.Mem p)
    (hpar : ∀ x, (h' x).parent = if x = c then some p else (h x).parent)
    (hfirst : ∀ x, (h' x).firstChild = if x = p then some c else (h x).firstChild)
    (hnext : ∀ x, (h' x).nextSib = if x = c then (h p).firstChild else (h x).nextSib)
    (hprev : ∀ x, (h' x).prevSib =
      if (h p).firstChild = some x then some c else if x = c then none else (h x).prevSib) :
    Represents h' (update F.kids (.node p) (c :: F.kids (.node p))) := by
  -- The node is a list of its own first, which is then moved.
  obtain ⟨k, hk⟩ := F.exists_top_empty
  have hempty : (h c).prevSib = none := by
    rw [hR.outside fun n hn => hc ⟨n, hn⟩]
    rfl
  have hlist : (F.insert (.top k) c hc (by simp)).kids = update F.kids (.top k) [c] := by
    rw [← hk]
    rfl
  have hmoved := (hR.insertTop hc hk).prepend (p := p) (q := .top k) (z := c)
    (hlist ▸ (F.insert (.top k) c hc (by simp)).laid) (by simp)
    (hlist ▸ (F.mem_insert hc (by simp)).mpr (.inr hp)) (by simp) (by simpa using hpar)
    (by simpa using hfirst) hnext fun x => by
      rw [hprev]
      by_cases hx : x = c
      · simp [hx, hempty]
      · simp [hx]
  have hne : (Owner.top k : Owner S) ≠ .node p := by simp
  have hself : update F.kids (.top k) [] = F.kids := by rw [update_eq_self_iff, hk]
  rw [update_comm hne, update_idem, update_comm hne.symm, hself] at hmoved
  simpa using hmoved

end

/-! ## Renaming the nodes of a heap -/

theorem seg_rename (e : Equiv.Perm S) {q r : Option S} (hs : Seg h q l r) :
    Seg (h.rename e) (q.map e) (l.map e) (r.map e) := by
  induction l generalizing q with
  | nil => trivial
  | cons a l ih =>
    obtain ⟨hp, hx, ht⟩ := hs
    refine ⟨by simp [LinkHeap.rename, Links.map, hp], ?_, ih ht⟩
    cases l <;> simp_all [LinkHeap.rename, Links.map]

/-- Renaming the nodes of a heap renames the forest it stores. -/
theorem rename (hR : Represents h F.kids) (e : Equiv.Perm S) :
    Represents (h.rename e) (F.rename e).kids := by
  refine ⟨fun n => seg_rename e (hR.seg _), fun {n x} hx => ?_, fun x => ?_, fun {x} hx => ?_⟩
  · rw [Forest.mem_rename_kids] at hx
    have := hR.parent hx
    cases n <;> simp [LinkHeap.rename, Links.map, this]
  · simp [LinkHeap.rename, Links.map, Forest.rename, hR.first]
  have : h (e.symm x) = Links.empty := by
    refine hR.outside fun n hn => hx (n.map e) ?_
    rw [Forest.mem_rename_kids]
    cases n <;> simpa using hn
  simp [LinkHeap.rename, this, Links.map, Links.empty]

end Represents
end IrisOS.Lib
