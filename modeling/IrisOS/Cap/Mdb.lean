import IrisOS.Cap.Basic
import IrisOS.Lib.Walk

/-! The link surgery of the derivation tree (`mdb_*` in `kcnode.c`), store by store, and the
forest operation each piece of surgery performs on a heap that lays out a forest. -/
namespace IrisOS.Cap
open Lib Lib.LinkHeap Function Links

/-- `mdb_link_child`: prepend `child` to the children of `parent`. -/
def mdbLinkChild (h : LinkHeap SlotRef) (parent child : SlotRef) : LinkHeap SlotRef :=
  let h := h.setParent child (some parent)
  let h := h.setPrev child none
  let h := h.setNext child (h parent).firstChild
  let h := through (h parent).firstChild (fun f => h.setPrev f (some child)) h
  h.setFirst parent (some child)

/-- `mdb_unlink_from_parent`: take `s` out of its sibling list. -/
def mdbUnlinkFromParent (h : LinkHeap SlotRef) (s : SlotRef) : LinkHeap SlotRef :=
  let h := match (h s).prevSib with
    | some p => h.setNext p (h s).nextSib
    | none => through (h s).parent (fun p => h.setFirst p (h s).nextSib) h
  let h := through (h s).nextSib (fun n => h.setPrev n (h s).prevSib) h
  let h := h.setPrev s none
  h.setNext s none

/-- The first half of `mdb_detach_reparent`: the children of `s` go in front of those of its parent,
or take a root's place. The loop writes no `next` link, so they are collected first. -/
def spliceChildren (fuel : ℕ) (h : LinkHeap SlotRef) (s child : SlotRef) : LinkHeap SlotRef :=
  let kids := chain (fun c => (h c).nextSib) fuel (some child)
  let last := kids.getLast?
  match (h s).parent with
  | some parent =>
    let h := setParents h (some parent) kids
    let h := through last (fun z => h.setNext z (h parent).firstChild) h
    let h := through (h parent).firstChild (fun f => h.setPrev f last) h
    let h := h.setFirst parent (some child)
    h.setFirst s none
  | none =>
    let h := setParents h none kids
    let psib := (h s).prevSib
    let nsib := (h s).nextSib
    let h := h.setPrev child psib
    let h := through psib (fun p => h.setNext p (some child)) h
    let h := through last (fun z => h.setNext z nsib) h
    let h := through nsib (fun n => h.setPrev n last) h
    let h := h.setPrev s none
    let h := h.setNext s none
    h.setFirst s none

/-- The links after `mdb_detach_reparent`, the final `mdb_clear_node` included. -/
def detachLinks (fuel : ℕ) (h : LinkHeap SlotRef) (s : SlotRef) : LinkHeap SlotRef :=
  let h := match (h s).firstChild with
    | some child => spliceChildren fuel h s child
    | none => h
  update (mdbUnlinkFromParent h s) s Links.empty

/-- The first half of `mdb_relocate`: copy the links of `src` to `dst` and point the parent
and the siblings of `src` at `dst`. -/
def relinkSiblings (h : LinkHeap SlotRef) (src dst : SlotRef) : LinkHeap SlotRef :=
  let h : LinkHeap SlotRef := update h dst (h src)
  let h := match (h dst).prevSib with
    | some p => h.setNext p (some dst)
    | none => through (h dst).parent (fun p => h.setFirst p (some dst)) h
  through (h dst).nextSib (fun n => h.setPrev n (some dst)) h

/-- The links after `mdb_relocate`, the final `mdb_clear_node` included. -/
def relocateLinks (fuel : ℕ) (h : LinkHeap SlotRef) (src dst : SlotRef) : LinkHeap SlotRef :=
  let h := relinkSiblings h src dst
  let h := setParents h (some dst) (chain (fun c => (h c).nextSib) fuel (h dst).firstChild)
  update h src Links.empty

variable {h : LinkHeap SlotRef} {F : Forest SlotRef} {kids : Owner SlotRef → List SlotRef}
  {n : Owner SlotRef} {l1 l2 : List SlotRef} {s p c src dst : SlotRef} {fuel : ℕ}

/-! ## Linking -/

theorem mdbLinkChild_represents (hR : Represents h F.kids) (hc : ¬ F.Mem c) (hp : F.Mem p) :
    Represents (mdbLinkChild h p c)
      (update F.kids (.node p) (c :: F.kids (.node p))) := by
  refine hR.link hc hp (fun x => ?_) (fun x => ?_) (fun x => ?_) (fun x => ?_)
  · simp [mdbLinkChild]
  · simp [mdbLinkChild]
  · simp [mdbLinkChild]
  · simp [mdbLinkChild]

/-! ## Unlinking -/

theorem mdbUnlinkFromParent_represents (hR : Represents h kids) (hk : Laid kids)
    (hns : n ≠ .node s) (hn : kids n = l1 ++ s :: l2) (hleaf : kids (.node s) = []) :
    Represents (update (mdbUnlinkFromParent h s) s Links.empty)
      (update (update kids n (l1 ++ l2)) (.node s) []) := by
  obtain ⟨hs1, hs2, -⟩ := nodup_middle_iff.mp (hn ▸ hk.nodup n)
  have hprev : (h s).prevSib ≠ some s := by
    rw [hR.prevSib_eq hn]
    exact fun e => hs1 (List.mem_of_getLast? e)
  have hnone : (h s).firstChild = none := hR.first_eq_none.mpr hleaf
  have hno : ∀ x, (h x).parent ≠ some s := fun x hx => by
    by_cases hm : ∃ m, x ∈ kids m
    · obtain ⟨m, hm⟩ := hm
      rw [hR.parent hm, Owner.toOption_eq_some] at hx
      simp [hx, hleaf] at hm
    · simp [hR.outside (not_exists.mp hm), empty] at hx
  have := hR.replace hk hns hn (update_self s empty (mdbUnlinkFromParent h s))
    (fun x hx => ?_) (fun x hx => ?_) (fun x hx => ?_) (fun x hx => ?_)
  · simpa [hleaf] using this
  all_goals
    unfold mdbUnlinkFromParent
    cases hp : (h s).prevSib with
    | none => simp [hx, hp, hleaf, hnone, hno]
    | some q =>
      have hq : s ≠ q := fun e => hprev (e ▸ hp)
      simp [hx, hp, hq, hleaf, hnone, hno, eq_comm]

/-! ## Removing a node with its children -/

section

variable (hR : Represents h F.kids) (hN : F.BoundedBy fuel)
include hR hN

theorem chain_kids
    (hc : (h s).firstChild = some c) :
    chain (fun x => (h x).nextSib) fuel (some c) = F.kids (.node s) ∧
      ∃ z, (F.kids (.node s)).getLast? = some z := by
  constructor
  · rw [← hc]
    exact hR.chain_children hN
  · obtain ⟨l, hl⟩ := hR.first_eq_some.mp hc
    exact ⟨_, by rw [hl, List.getLast?_cons]⟩

theorem spliceChildren_of_parent
    (hsp : F.Child p s) (hc : (h s).firstChild = some c) :
    Represents (spliceChildren fuel h s c) (update (update F.kids (.node p)
      (F.kids (.node s) ++ F.kids (.node p))) (.node s) []) := by
  have hpar : (h s).parent = some p := hR.parent_eq_some.mpr hsp
  obtain ⟨hkids, z, hlast⟩ := chain_kids hR hN hc
  have hps : p ≠ s := hsp.ne
  have hhead : (F.kids (.node s)).head? = some c := (hR.first s).symm.trans hc
  refine hR.prepend F.laid (by simpa using hps) hsp.owner hlast (fun x => ?_) (fun x => ?_)
    (fun x => ?_) (fun x => ?_)
  · simp [spliceChildren, hpar, hkids, hlast]
  · simp [spliceChildren, hpar, hkids, hlast, hhead]
  · simp [spliceChildren, hpar, hkids, hlast, eq_comm]
  · simp [spliceChildren, hpar, hkids, hlast]

theorem spliceChildren_of_root {k : ℕ}
    (hn : F.kids (.top k) = l1 ++ s :: l2) (hc : (h s).firstChild = some c) :
    Represents (spliceChildren fuel h s c) (update (update F.kids (.top k)
      (l1 ++ (F.kids (.node s) ++ l2))) (.node s) []) := by
  have hpar : (h s).parent = none := hR.parent (n := .top k) (by simp [hn])
  obtain ⟨hkids, z, hlast⟩ := chain_kids hR hN hc
  have hmem : ∀ x, x ∈ F.kids (.node s) ↔ (h x).parent = some s :=
    fun x => hR.parent_eq_some.symm
  refine hR.replace F.laid (by simp) hn ?_ (fun x hx => ?_) (fun x hx => ?_) (fun x hx => ?_)
    (fun x hx => ?_)
  · apply Links.ext <;> simp [spliceChildren, hpar, hkids, hlast, Links.empty]
  · simp [spliceChildren, hpar, hkids, hlast, hmem]
  · simp [spliceChildren, hpar, hkids, hlast, hx]
  · simp [spliceChildren, hpar, hkids, hlast, hx, hc, eq_comm]
  · simp [spliceChildren, hpar, hkids, hlast, hx, hc, eq_comm]

end

theorem laid_spliceFront (F : Forest SlotRef) (hsp : F.Child p s) :
    Laid (update (update F.kids (.node p)
      (F.kids (.node s) ++ F.kids (.node p))) (.node s) []) := by
  have hne : Owner.node p ≠ .node s := by simpa using hsp.ne
  have hdisj : ∀ x ∈ F.kids (.node s), x ∉ F.kids (.node p) :=
    fun x h1 h2 => hne (F.unique h2 h1)
  have hmem : ∀ m x, x ∈ update (update F.kids (.node p)
      (F.kids (.node s) ++ F.kids (.node p))) (.node s) [] m ↔
      m ≠ .node s ∧ (m = .node p ∧ x ∈ F.kids (.node s) ∨ x ∈ F.kids m) := by
    intro m x
    rw [mem_update_update, List.mem_append]
    by_cases hm : m = .node p
    · subst hm; simp
    · simp [hm]
  refine ⟨fun m => ?_, fun {x m m'} hx hx' => ?_, fun {q x} hx => ?_⟩
  · by_cases hms : m = .node s
    · simp [hms]
    by_cases hmp : m = .node p
    · subst hmp
      rw [update_of_ne hms, update_self]
      exact (F.nodup _).append (F.nodup _) hdisj
    · rw [update_of_ne hms, update_of_ne hmp]
      exact F.nodup m
  · obtain ⟨hms, h1⟩ := (hmem _ _).mp hx
    obtain ⟨hms', h2⟩ := (hmem _ _).mp hx'
    rcases h1 with ⟨rfl, h1⟩ | h1 <;> rcases h2 with ⟨rfl, h2⟩ | h2
    · rfl
    · exact (hms' (F.unique h2 h1)).elim
    · exact (hms (F.unique h1 h2)).elim
    · exact F.unique h1 h2
  · have hq : F.Mem q := by
      obtain ⟨-, ⟨hqp, -⟩ | hx⟩ := (hmem _ _).mp hx
      · cases hqp
        exact hsp.owner
      · exact F.owner_mem hx
    obtain ⟨m, hm⟩ := hq
    by_cases hms : m = .node s
    · exact ⟨.node p, (hmem _ _).mpr ⟨hne, .inl ⟨rfl, hms ▸ hm⟩⟩⟩
    · exact ⟨m, (hmem _ _).mpr ⟨hms, .inr hm⟩⟩

theorem update_update_nil (kids : Owner SlotRef → List SlotRef) (hns : n ≠ .node s)
    (L L' : List SlotRef) :
    update (update (update (update kids n L) (.node s) []) n L') (.node s) [] =
      update (update kids n L') (.node s) [] := by
  rw [update_comm hns, update_idem, update_comm hns.symm, update_idem]

theorem mdbUnlinkFromParent_of_empty (hs : h s = Links.empty) : mdbUnlinkFromParent h s = h := by
  funext x
  apply Links.ext
  · simp [mdbUnlinkFromParent, hs, Links.empty]
  · simp [mdbUnlinkFromParent, hs, empty]
  · by_cases hx : x = s
    · simp [mdbUnlinkFromParent, hs, hx, empty]
    · simp [mdbUnlinkFromParent, hs, hx, empty]
  · by_cases hx : x = s
    · simp [mdbUnlinkFromParent, hs, hx, empty]
    · simp [mdbUnlinkFromParent, hs, hx, empty]

theorem detachLinks_represents (hR : Represents h F.kids) (hN : F.BoundedBy fuel) (hs : F.Mem s) :
    ∃ F', F.Detaches s F' ∧ Represents (detachLinks fuel h s) F'.kids := by
  obtain ⟨n, hsn⟩ := hs
  obtain ⟨l1, l2, hn⟩ := List.append_of_mem hsn
  have hns : n ≠ .node s := by
    rintro rfl
    exact Forest.Child.ne hsn rfl
  unfold detachLinks
  cases hc : (h s).firstChild with
  | none =>
    have hleaf := hR.first_eq_none.mp hc
    obtain ⟨F', hkids, hF'⟩ := F.exists_detaches hn (L := l1 ++ l2) (by simp [hleaf]) fun _ => rfl
    refine ⟨F', hF', ?_⟩
    rw [hkids]
    exact mdbUnlinkFromParent_represents hR F.laid hns hn hleaf
  | some c =>
    have hK : F.kids (.node s) ≠ [] := fun h0 => by
      rw [hR.first_eq_none.mpr h0] at hc
      cases hc
    cases n with
    | node p =>
      obtain ⟨F', hkids, hF'⟩ := F.exists_detaches hn
        (L := (F.kids (.node s) ++ l1) ++ l2) (by simp) fun h0 => (hK h0).elim
      refine ⟨F', hF', ?_⟩
      have hR' := spliceChildren_of_parent hR hN hsn hc
      have hn' : update (update F.kids (.node p)
          (F.kids (.node s) ++ F.kids (.node p))) (.node s) [] (.node p) =
          (F.kids (.node s) ++ l1) ++ s :: l2 := by
        rw [update_of_ne hns, update_self, hn, List.append_assoc]
      have := mdbUnlinkFromParent_represents hR' (laid_spliceFront F hsn) hns hn' (by simp)
      rw [update_update_nil _ hns] at this
      rw [hkids]
      exact this
    | top k =>
      obtain ⟨F', hkids, hF'⟩ := F.exists_detaches hn
        (L := l1 ++ (F.kids (.node s) ++ l2)) (by
          rw [← List.append_assoc, ← List.append_assoc]
          exact List.perm_append_comm.append_right l2) fun h0 => (hK h0).elim
      refine ⟨F', hF', ?_⟩
      have hR' := spliceChildren_of_root hR hN hn hc
      rw [← hkids] at hR'
      have hempty : spliceChildren fuel h s c s = empty :=
        hR'.outside fun m hm => (hF'.mem_iff.mp ⟨m, hm⟩).1 rfl
      change Represents (update (mdbUnlinkFromParent (spliceChildren fuel h s c) s) s _) _
      rw [mdbUnlinkFromParent_of_empty hempty, update_eq_self_iff.mpr hempty.symm]
      exact hR'

/-! ## Relocating a node -/

theorem relinkSiblings_apply (hpar : (h src).parent ≠ some dst) (hnext : (h src).nextSib ≠ some dst)
    (hprev : (h src).prevSib ≠ some dst) (x : SlotRef) : relinkSiblings h src dst x =
      if x = dst then h src else { h x with
        firstChild := if (h src).parent = some x ∧ (h src).prevSib = none then some dst
          else (h x).firstChild
        nextSib := if (h src).prevSib = some x then some dst else (h x).nextSib
        prevSib := if (h src).nextSib = some x then some dst else (h x).prevSib } := by
  by_cases hx : x = dst
  · subst hx
    cases hp : (h src).prevSib with
    | none => simp [relinkSiblings, hp, hpar, hnext]
    | some p =>
      have : x ≠ p := fun e => hprev (e ▸ hp)
      simp [relinkSiblings, hp, hnext, this]
  · cases hp : (h src).prevSib with
    | none => apply Links.ext <;> simp [relinkSiblings, hp, hx]
    | some p =>
      have : dst ≠ p := fun e => hprev (e ▸ hp)
      apply Links.ext <;> simp [relinkSiblings, hp, hx, this, eq_comm]

theorem map_swap_eq {o : Option SlotRef} (ho : o ≠ some dst) :
    o.map (Equiv.swap src dst) = if o = some src then some dst else o := by
  cases o with
  | none => simp
  | some y =>
    have hy : y ≠ dst := fun e => ho (by rw [e])
    by_cases hys : y = src
    · simp [hys]
    · simp [hys, Equiv.swap_apply_of_ne_of_ne hys hy]

theorem relocateLinks_eq_rename (hR : Represents h F.kids) (hN : F.BoundedBy fuel)
    (hsrc : F.Mem src) (hdst : ¬ F.Mem dst) :
    relocateLinks fuel h src dst = h.rename (Equiv.swap src dst) := by
  have hd : h dst = empty := hR.outside fun n hn => hdst ⟨n, hn⟩
  have hpar : ∀ x, (h x).parent ≠ some dst := fun x e => hdst (hR.parent_mem e).1
  have hfst : ∀ x, (h x).firstChild ≠ some dst := fun x e => hdst (hR.first_mem e).1
  have hnxt : ∀ x, (h x).nextSib ≠ some dst := fun x e => hdst (hR.nextSib_mem e).1
  have hprv : ∀ x, (h x).prevSib ≠ some dst := fun x e => hdst (hR.prevSib_mem e).1
  have happly := relinkSiblings_apply (hpar src) (hnxt src) (hprv src)
  have hchain : chain (fun c => (relinkSiblings h src dst c).nextSib) fuel
      (relinkSiblings h src dst dst).firstChild = F.kids (.node src) := by
    have hlen := hN _ (F.nodup (.node src)) fun x hx => ⟨_, hx⟩
    rw [happly, if_pos rfl, hR.first]
    refine chain_nextSib (p := none) ((hR.seg (.node src)).congr fun x hx => ?_) hlen
    have hxd : x ≠ dst := fun e => hdst ⟨_, e ▸ hx⟩
    obtain ⟨n, hn⟩ := hsrc
    obtain ⟨l1, l2, hl⟩ := List.append_of_mem hn
    have hxn : x ∉ F.kids n := fun e => by
      have := F.unique hx e
      subst this
      exact Forest.Child.ne hn rfl
    have h1 : (h src).prevSib ≠ some x := fun e => hxn <| by
      rw [hR.prevSib_eq hl] at e
      simp [hl, List.mem_of_getLast? e]
    have h2 : (h src).nextSib ≠ some x := fun e => hxn <| by
      rw [hR.nextSib_eq hl] at e
      simp [hl, List.mem_of_mem_head? e]
    simp [happly, hxd, h1, h2]
  have hrel : ∀ x, relocateLinks fuel h src dst x = if x = src then empty else
      setParents (relinkSiblings h src dst) (some dst) (F.kids (.node src)) x := by
    intro x
    simp only [relocateLinks, hchain]
    by_cases hx : x = src
    · simp [hx]
    · simp [hx]
  have hmem : ∀ x, x ∈ F.kids (.node src) ↔ (h x).parent = some src :=
    fun x => hR.parent_eq_some.symm
  funext x
  rw [hrel]
  by_cases hxs : x = src
  · subst hxs
    simp [LinkHeap.rename, hd, map, empty]
  rw [if_neg hxs]
  by_cases hxd : x = dst
  · subst hxd
    have hxK : x ∉ F.kids (.node src) := fun e => hdst ⟨_, e⟩
    have hself : (h src).parent ≠ some src ∧ (h src).firstChild ≠ some src ∧
        (h src).nextSib ≠ some src ∧ (h src).prevSib ≠ some src :=
      ⟨fun e => (hR.parent_mem e).2 rfl, fun e => (hR.first_mem e).2 rfl,
        fun e => (hR.nextSib_mem e).2 rfl, fun e => (hR.prevSib_mem e).2 rfl⟩
    apply Links.ext
    · simp [LinkHeap.rename, Links.map, map_swap_eq (hpar src), hself, hxK, happly]
    · simp [LinkHeap.rename, map, map_swap_eq (hfst src), hself, happly]
    · simp [LinkHeap.rename, map, map_swap_eq (hnxt src), hself, happly]
    · simp [LinkHeap.rename, map, map_swap_eq (hprv src), hself, happly]
  have hx : Equiv.swap src dst x = x := Equiv.swap_apply_of_ne_of_ne hxs hxd
  apply Links.ext
  · simp [LinkHeap.rename, hx, Links.map, map_swap_eq (hpar x), hmem, hxd, happly]
  · simp [LinkHeap.rename, hx, map, map_swap_eq (hfst x), hxd, hR.first_eq_some_iff, happly]
  · simp [LinkHeap.rename, hx, map, map_swap_eq (hnxt x), hxd, hR.nextSib_iff_prevSib, happly]
  · simp [LinkHeap.rename, hx, map, map_swap_eq (hprv x), hxd, ← hR.nextSib_iff_prevSib,
      happly]

end IrisOS.Cap
