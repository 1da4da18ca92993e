import Mathlib.Logic.Relation
import Maple.Terrain.Updates

/-!
# Maple.Terrain.MarkingOrder

**The order of the marks does not matter.** However often and in whatever order
`quadNodeSetBoundary` is called in a frame, the marks it leaves are given by the set of
quads it has been called for: the quads above one of them are active, the others among
them are at the border (`marking_by_set`). The loop over the ancestors may stop at a quad
that is active already, since the active quads are closed under parents once a call has
ended; during a call the one exception is the quad that comes next (`Marks.closed`).
-/

namespace Maple.Terrain

open Lib QuadCollapseMesh

variable {V : Type} {k l : Nat} {m m' : QuadCollapseMesh V}

/-! ### Ancestors -/

/-- The link from a quad to its parent. -/
def ParentLink (parent : QuadPtr → Option Nat) (q p : QuadPtr) : Prop :=
  ∃ i, parent q = some i ∧ p = .node i

/-- `p` is a proper ancestor of `q`. -/
def Ancestor (parent : QuadPtr → Option Nat) (p q : QuadPtr) : Prop :=
  Relation.TransGen (ParentLink parent) q p

/-- The quads above one of the quads `S`. -/
def above (parent : QuadPtr → Option Nat) (S : Set QuadPtr) : Set QuadPtr :=
  {p | ∃ q ∈ S, Ancestor parent p q}

/-- The quad `next` and the quads above it. -/
def upwards (parent : QuadPtr → Option Nat) (next : Option Nat) : Set QuadPtr :=
  {p | ∃ i, next = some i ∧ Relation.ReflTransGen (ParentLink parent) (.node i) p}

variable {parent : QuadPtr → Option Nat} {S A : Set QuadPtr}

theorem ancestor_iff {p q : QuadPtr} : Ancestor parent p q ↔ p ∈ upwards parent (parent q) := by
  rw [Ancestor, Relation.TransGen.head'_iff]
  constructor
  · rintro ⟨_, ⟨i, hi, rfl⟩, hrest⟩
    exact ⟨i, hi, hrest⟩
  · rintro ⟨i, hi, hrest⟩
    exact ⟨.node i, ⟨i, hi, rfl⟩, hrest⟩

theorem mem_upwards_some {p : QuadPtr} {i : Nat} :
    p ∈ upwards parent (some i) ↔ p = .node i ∨ p ∈ upwards parent (parent (.node i)) := by
  constructor
  · rintro ⟨j, hj, hrest⟩
    obtain rfl := Option.some.inj hj
    cases hrest using Relation.ReflTransGen.head_induction_on with
    | refl => exact .inl rfl
    | head hlink hrest _ =>
        obtain ⟨j, hj, rfl⟩ := hlink
        exact .inr ⟨j, hj, hrest⟩
  · rintro (rfl | ⟨j, hj, hrest⟩)
    · exact ⟨i, rfl, .refl⟩
    · exact ⟨i, rfl, .head ⟨j, hj, rfl⟩ hrest⟩

@[simp] theorem upwards_none : upwards parent none = ∅ := by
  ext p
  exact iff_of_false (fun ⟨i, hi, _⟩ => absurd hi nofun) (Set.notMem_empty p)

/-- A set that is closed under parents has all quads above its own. -/
theorem upwards_subset {p : Nat} (hclosed : ∀ q ∈ A, ∀ i, parent q = some i → .node i ∈ A)
    (hp : .node p ∈ A) : upwards parent (some p) ⊆ A := by
  rintro q ⟨i, hi, hrest⟩
  obtain rfl := Option.some.inj hi
  induction hrest with
  | refl => exact hp
  | tail _ hlink ih =>
      obtain ⟨j, hj, rfl⟩ := hlink
      exact hclosed _ ih j hj

theorem above_insert (q : QuadPtr) :
    above parent (insert q S) = above parent S ∪ upwards parent (parent q) := by
  ext p
  constructor
  · rintro ⟨x, rfl | hx, hp⟩
    · exact .inr (ancestor_iff.mp hp)
    · exact .inl ⟨x, hx, hp⟩
  · rintro (⟨x, hx, hp⟩ | hp)
    · exact ⟨x, .inr hx, hp⟩
    · exact ⟨q, .inl rfl, ancestor_iff.mpr hp⟩

/-- What is above a quad that is above `S` is above `S`. -/
theorem upwards_subset_above {q : QuadPtr} (hq : q ∈ above parent S) :
    upwards parent (parent q) ⊆ above parent S := by
  intro p hp
  obtain ⟨x, hx, hqx⟩ := hq
  exact ⟨x, hx, hqx.trans (ancestor_iff.mpr hp)⟩

/-! ### The marks of a frame -/

/-- In the frame `F` that has started with the quads `old`, the quads `S` and `A` have been
marked, and those of `A` are active; `next` is the quad to be activated next. -/
structure Marks (F : Nat) (old : QuadPtr → QuadLeaf) (S A : Set QuadPtr) (next : Option Nat)
    (m : QuadCollapseMesh V) : Prop where
  frame : m.updateFrame = F
  links : ∀ q, (m.quads q).toQuadLinks = (old q).toQuadLinks
  stamped : ∀ q, (m.quads q).activeFrame = F ↔ q ∈ S ∪ A
  active : ∀ q, Active m q ↔ q ∈ A
  closed : ∀ q ∈ A, ∀ p, (old q).parent = some p → .node p ∈ A ∨ next = some p
  rest : ∀ q, q ∉ S → q ∉ A → m.quads q = old q

variable {F : Nat} {old : QuadPtr → QuadLeaf} {next : Option Nat}

theorem Marks.parent_eq (h : Marks F old S A next m) (q : QuadPtr) :
    (m.quads q).parent = (old q).parent := by
  rw [h.links]

theorem Active.iff_of_self {state : NodeState} (q : QuadPtr) (hF : m.updateFrame < 2 ^ 26) :
    Active (m.markQuad q state) q ↔ state = .active := by
  rw [Active, markQuad_self]
  exact and_iff_right (Nat.mod_eq_of_lt hF)

theorem Active.iff_of_ne {state : NodeState} {q x : QuadPtr} (hx : x ≠ q) :
    Active (m.markQuad q state) x ↔ Active m x := by
  rw [Active, markQuad_of_ne hx]
  rfl

/-- What a mark changes. -/
theorem Marks.markQuad (h : Marks F old S A next m) (hF : F < 2 ^ 26) {q : QuadPtr}
    {state : NodeState} {S' A' : Set QuadPtr} {next' : Option Nat}
    (hmarked : S' ∪ A' = insert q (S ∪ A)) (hself : q ∈ A' ↔ state = .active)
    (hother : ∀ x, x ≠ q → (x ∈ A' ↔ x ∈ A))
    (hclosed : ∀ x ∈ A', ∀ p, (old x).parent = some p → .node p ∈ A' ∨ next' = some p) :
    Marks F old S' A' next' (m.markQuad q state) := by
  have hmod : m.updateFrame % 2 ^ 26 = F := by rw [h.frame, Nat.mod_eq_of_lt hF]
  constructor
  · exact h.frame
  · intro x
    by_cases hx : x = q
    · rw [hx, markQuad_self]
      exact h.links q
    · rw [markQuad_of_ne hx]
      exact h.links x
  · intro x
    rw [hmarked]
    by_cases hx : x = q
    · rw [hx, markQuad_self]
      exact iff_of_true hmod (Set.mem_insert q _)
    · rw [markQuad_of_ne hx, h.stamped x, Set.mem_insert_iff, or_iff_right hx]
  · intro x
    by_cases hx : x = q
    · rw [hx, Active.iff_of_self q (h.frame ▸ hF), hself]
    · rw [Active.iff_of_ne hx, h.active, hother x hx]
  · exact hclosed
  · intro x hS hA
    have hnot : x ∉ S' ∪ A' := fun hmem => hmem.elim hS hA
    rw [hmarked, Set.mem_insert_iff, Set.mem_union, not_or, not_or] at hnot
    rw [markQuad_of_ne hnot.1]
    exact h.rest x hnot.2.1 hnot.2.2

/-- **The loop over the ancestors** activates all of them, although it stops at the first
one that is active. -/
theorem Marks.activateParents {fuel : Nat} (h : Marks F old S A next m) (hF : F < 2 ^ 26)
    (hrun : activateParents fuel m next = .ok m') :
    Marks F old S (A ∪ upwards (fun q => (old q).parent) next) none m' := by
  induction fuel generalizing m A next with
  | zero => exact absurd hrun nofun
  | succ fuel ih =>
      cases next with
      | none =>
          obtain rfl := Except.ok.inj hrun
          rw [upwards_none, Set.union_empty]
          exact h
      | some p =>
          rw [QuadCollapseMesh.activateParents] at hrun
          by_cases hp : Active m (.node p)
          · -- the quads above an active quad are active
            obtain rfl := Except.ok.inj ((if_pos hp).symm.trans hrun)
            have hmem := (h.active _).mp hp
            have hclosed : ∀ q ∈ A, ∀ i, (old q).parent = some i → .node i ∈ A := by
              intro q hq i hi
              rcases h.closed q hq i hi with hi | hi
              · exact hi
              · exact Option.some.inj hi ▸ hmem
            rw [Set.union_eq_self_of_subset_right (upwards_subset hclosed hmem)]
            exact { h with closed := fun q hq i hi => .inl (hclosed q hq i hi) }
          · have hrun := (if_neg hp).symm.trans hrun
            have hstep : Marks F old S (insert (.node p) A) (old (.node p)).parent
                (m.markQuad (.node p) .active) := by
              refine h.markQuad hF (Set.union_insert ..)
                (iff_of_true (Set.mem_insert _ _) rfl)
                (fun x hx => by rw [Set.mem_insert_iff, or_iff_right hx]) fun x hx i hi => ?_
              rcases hx with rfl | hx
              · exact .inr hi
              · rcases h.closed x hx i hi with hi | hi
                · exact .inl (.inr hi)
                · exact .inl (.inl (by rw [Option.some.inj hi]))
            rw [h.parent_eq] at hrun
            have hdone := ih hstep hrun
            have hset : insert (.node p) A ∪ upwards (fun q => (old q).parent)
                  (old (.node p)).parent =
                A ∪ upwards (fun q => (old q).parent) (some p) := by
              ext q
              simp only [Set.mem_union, Set.mem_insert_iff, mem_upwards_some]
              exact or_assoc.trans or_left_comm
            rw [hset] at hdone
            exact hdone

/-- The marks after calls for the quads `S`. -/
def MarkedFor (F : Nat) (old : QuadPtr → QuadLeaf) (S : Set QuadPtr)
    (m : QuadCollapseMesh V) : Prop :=
  Marks F old S (above (fun q => (old q).parent) S) none m

/-- **`quadNodeSetBoundary`** adds its quad to the set. -/
theorem MarkedFor.quadNodeSetBoundary {fuel : Nat} {q : QuadPtr} (h : MarkedFor F old S m)
    (hF : F < 2 ^ 26) (hrun : quadNodeSetBoundary fuel m q = .ok m') :
    MarkedFor F old (insert q S) m' := by
  rw [QuadCollapseMesh.quadNodeSetBoundary] at hrun
  by_cases hq : Active m q
  · -- an earlier call has made the quad an ancestor
    obtain rfl := Except.ok.inj ((if_pos hq).symm.trans hrun)
    have hmem := (Marks.active h q).mp hq
    have hsame : above (fun q => (old q).parent) (insert q S) =
        above (fun q => (old q).parent) S := by
      rw [above_insert, Set.union_eq_self_of_subset_right (upwards_subset_above hmem)]
    rw [MarkedFor, hsame]
    refine { h with stamped := fun x => ?_, rest := fun x hx => h.rest x fun hS => hx (.inr hS) }
    rw [Marks.stamped h x, Set.insert_union, Set.insert_eq_of_mem (.inr hmem)]
  · have hrun := (if_neg hq).symm.trans hrun
    have hnot : q ∉ above (fun q => (old q).parent) S := fun hmem =>
      hq ((Marks.active h q).mpr hmem)
    have hstep : Marks F old (insert q S) (above (fun q => (old q).parent) S) (old q).parent
        (m.markQuad q .boundary) := by
      refine Marks.markQuad h hF (Set.insert_union ..) (iff_of_false hnot nofun)
        (fun _ _ => Iff.rfl) fun x hx i hi => ?_
      exact .inl ((Marks.closed h x hx i hi).resolve_right nofun)
    rw [Marks.parent_eq h] at hrun
    have hdone := hstep.activateParents hF hrun
    rw [← above_insert] at hdone
    exact hdone

/-- **A sequence of calls.** -/
theorem MarkedFor.foldlM {fuel : Nat} {qs : List QuadPtr} (h : MarkedFor F old S m)
    (hF : F < 2 ^ 26) (hrun : qs.foldlM (QuadCollapseMesh.quadNodeSetBoundary fuel) m = .ok m') :
    MarkedFor F old (S ∪ {q | q ∈ qs}) m' := by
  induction qs generalizing m S with
  | nil =>
      obtain rfl := Except.ok.inj hrun
      simpa using h
  | cons q qs ih =>
      obtain ⟨m₁, hfirst, hrest⟩ := bind_eq_ok (hrun : Except.bind _ _ = _)
      have hdone := ih (h.quadNodeSetBoundary hF hfirst) hrest
      have hset : insert q S ∪ {x | x ∈ qs} = S ∪ {x | x ∈ q :: qs} := by
        ext x
        simp only [Set.mem_union, Set.mem_insert_iff, Set.mem_ofPred_eq, List.mem_cons]
        exact or_assoc.trans or_left_comm
      rw [hset] at hdone
      exact hdone

/-- At the start of a frame nothing is marked. -/
theorem markedFor_start (hold : ∀ q, (m.quads q).activeFrame ≠ m.updateFrame) :
    MarkedFor m.updateFrame m.quads ∅ m := by
  have hnone : above (fun q => (m.quads q).parent) ∅ = ∅ := by
    ext p
    exact iff_of_false (fun ⟨q, hq, _⟩ => hq) (Set.notMem_empty p)
  rw [MarkedFor, hnone]
  refine ⟨rfl, fun _ => rfl, fun q => iff_of_false (hold q) (by simp),
    fun q => iff_of_false (fun hq => hold q hq.1) (Set.notMem_empty q),
    fun q hq => absurd hq (Set.notMem_empty q), fun _ _ _ => rfl⟩

/-- Two meshes marked for the same quads agree on all quads. -/
theorem MarkedFor.quads_eq (h : MarkedFor F old S m) (h' : MarkedFor F old S m') :
    m'.quads = m.quads := by
  funext q
  by_cases hmem : q ∈ S ∪ above (fun q => (old q).parent) S
  · have hlinks := (Marks.links h' q).trans (Marks.links h q).symm
    have hframe := (Marks.stamped h q).mpr hmem
    have hframe' := (Marks.stamped h' q).mpr hmem
    have hstate : (m'.quads q).state = .active ↔ (m.quads q).state = .active := by
      have hiff := (Marks.active h' q).trans (Marks.active h q).symm
      rw [Active, Active, h'.frame, h.frame, hframe, hframe'] at hiff
      simpa using hiff
    generalize m'.quads q = a' at *
    generalize m.quads q = a at *
    obtain ⟨links, frame, state⟩ := a
    obtain ⟨links', frame', state'⟩ := a'
    obtain rfl : links' = links := hlinks
    obtain rfl : frame' = frame := hframe'.trans hframe.symm
    cases state <;> cases state' <;> simp at hstate ⊢
  · obtain ⟨hS, hA⟩ := not_or.mp hmem
    rw [Marks.rest h q hS hA, Marks.rest h' q hS hA]

/-! ### The theorem -/

/-- What the marks of a frame say, for the quads `S` and the parents of the quads. -/
structure MarkedBy (parent : QuadPtr → Option Nat) (S : Set QuadPtr) (m : QuadCollapseMesh V) :
    Prop where
  active : ∀ q, ((m.quads q).activeFrame = m.updateFrame ∧ (m.quads q).state = .active) ↔
    ∃ s ∈ S, Ancestor parent q s
  boundary : ∀ q, ((m.quads q).activeFrame = m.updateFrame ∧ (m.quads q).state = .boundary) ↔
    q ∈ S ∧ ¬ ∃ s ∈ S, Ancestor parent q s
  unmarked : ∀ q, (m.quads q).activeFrame ≠ m.updateFrame ↔
    q ∉ S ∧ ¬ ∃ s ∈ S, Ancestor parent q s

theorem MarkedFor.markedBy (h : MarkedFor F old S m) :
    MarkedBy (fun q => (old q).parent) S m := by
  constructor
  · exact fun q => Marks.active h q
  · intro q
    have hactive := Marks.active h q
    have hstamped := Marks.stamped h q
    rw [Active] at hactive
    rw [← h.frame] at hstamped
    have hstate : (m.quads q).state = .boundary ↔ ¬ (m.quads q).state = .active := by
      cases (m.quads q).state <;> simp
    have habove : q ∈ above (fun q => (old q).parent) S ↔
        ∃ s ∈ S, Ancestor (fun q => (old q).parent) q s := Iff.rfl
    rw [hstate, ← habove, ← hactive, hstamped, Set.mem_union, ← hactive, hstamped, Set.mem_union]
    tauto
  · intro q
    have hstamped := Marks.stamped h q
    rw [← h.frame] at hstamped
    rw [ne_eq, hstamped, Set.mem_union, not_or]
    exact Iff.rfl

/-- The calls end, and what they leave is given by the set of their quads. -/
theorem InFrame.markedFor (h : InFrame k ∅ none m) (hF : m.updateFrame < 2 ^ 26)
    (hold : ∀ q, (m.quads q).activeFrame ≠ m.updateFrame) {qs : List QuadPtr}
    (hqs : ∀ q ∈ qs, ∃ l a b, IsQuad k m q l a b) :
    ∃ m', Settles (fun fuel => qs.foldlM (quadNodeSetBoundary fuel) m) (.ok m') ∧
      MarkedFor m.updateFrame m.quads {q | q ∈ qs} m' := by
  obtain ⟨m', hrun, -⟩ := setBoundaries_settles h hqs
  refine ⟨m', hrun, ?_⟩
  obtain ⟨N, hN⟩ := hrun
  have hdone := (markedFor_start hold).foldlM hF (hN N (Nat.le_refl N))
  rwa [Set.empty_union] at hdone

/-- **The marks of a frame depend on the set of quads only.** In every frame below `2 ^ 24` of
every run, a sequence of calls of `quadNodeSetBoundary` for quads of the tree ends with the
proper ancestors of these quads active, the others of them at the border, and no mark on the
rest; and sequences for the same quads leave the same marks. -/
theorem marking_by_set [Inhabited V] (closer : V → V → V → Bool) (hk : k ≤ 12)
    {vertices : List V} (hvertices : (2 ^ k + 1) * (2 ^ k + 1) ≤ vertices.length) :
    ∃ m₀, Settles (fun fuel => build closer fuel (empty {}) vertices (2 ^ k + 1) (2 ^ k + 1))
        (.ok (true, m₀)) ∧
      ∀ as m, Run Step m₀ as m → frames as + 1 < 2 ^ 24 →
        ∀ qs : List QuadPtr, (∀ q ∈ qs, ∃ l a b, IsQuad k m₀ q l a b) →
          ∃ m', Settles (fun fuel => qs.foldlM (quadNodeSetBoundary fuel) (nextFrame m)) (.ok m') ∧
            m'.updateFrame = frames as + 1 ∧
            MarkedBy (fun q => (m₀.quads q).parent) {q | q ∈ qs} m' ∧
            ∀ (qs' : List QuadPtr) (m'' : QuadCollapseMesh V), (∀ q, q ∈ qs' ↔ q ∈ qs) →
              Settles (fun fuel => qs'.foldlM (quadNodeSetBoundary fuel) (nextFrame m)) (.ok m'') →
              m''.quads = m'.quads := by
  obtain ⟨m₀, hbuild, hfresh⟩ := build_settles closer (shipped_admits hk) hvertices
  refine ⟨m₀, hbuild, fun as m hrun hlt qs hqs => ?_⟩
  have h := hfresh.between.run hrun (by omega)
  obtain ⟨hstart, hframe⟩ := h.nextFrame (by omega)
  have hkept := (hfresh.between.kept_run hrun (by omega)).trans (kept_nextFrame m)
  have hF : (nextFrame m).updateFrame < 2 ^ 26 := by omega
  have hold : ∀ q, ((nextFrame m).quads q).activeFrame ≠ (nextFrame m).updateFrame := by
    intro q
    have hle := h.quadStamp_le (by omega) q
    rw [hframe]
    exact (Nat.lt_succ_of_le hle).ne
  have hparent : (fun q => ((nextFrame m).quads q).parent) = fun q => (m₀.quads q).parent := by
    funext q
    rw [hkept.links.quads]
  obtain ⟨m', hcalls, hmarked⟩ := hstart.markedFor hF hold fun q hq => by
    obtain ⟨l, a, b, hquad⟩ := hqs q hq
    exact ⟨l, a, b, hkept.links.isQuad hquad⟩
  refine ⟨m', hcalls, hmarked.frame.trans hframe, hparent ▸ hmarked.markedBy,
    fun qs' m'' hsame hcalls' => ?_⟩
  have hset : {q | q ∈ qs'} = {q | q ∈ qs} := Set.ext hsame
  obtain ⟨N, hN⟩ := hcalls'
  have hmarked' := (markedFor_start hold).foldlM hF (hN N (Nat.le_refl N))
  rw [Set.empty_union, hset] at hmarked'
  exact hmarked.quads_eq hmarked'

/-- A mesh of four leaves under a root: the call for the first leaf in the first frame. -/
theorem marking_by_set_leaf :
    ∃ m₀ m', Settles (fun fuel => build (fun _ _ _ => true) fuel (empty {}) (List.range 9) 3 3)
        (.ok (true, m₀)) ∧
      (∃ q l a b, IsQuad 1 m₀ q l a b ∧
        Settles (fun fuel => [q, q].foldlM (quadNodeSetBoundary fuel) (nextFrame m₀)) (.ok m') ∧
        MarkedBy (fun q => (m₀.quads q).parent) {x | x ∈ [q, q]} m') := by
  have hvertices : (2 ^ 1 + 1) * (2 ^ 1 + 1) ≤ (List.range 9).length := by decide
  obtain ⟨m₀, hbuild, hmarks⟩ := marking_by_set (fun _ _ _ => true) (by decide) hvertices
  obtain ⟨m₁, hbuild₁, hfresh⟩ := build_settles (fun _ _ _ => true) (shipped_admits
    (Nat.one_le_ofNat (n := 12))) hvertices
  obtain rfl := (Prod.mk.inj (Except.ok.inj (Settles.unique hbuild hbuild₁))).2
  have hroot : InQuads 1 0 0 0 := ⟨by decide, by decide, by decide⟩
  obtain ⟨i, -, hchild⟩ := hfresh.linked hroot (by decide)
  obtain ⟨q, -, hq, -⟩ := hchild 0
  have hqs : ∀ x ∈ [q, q], ∃ l a b, IsQuad 1 m₀ x l a b := by
    intro x hx
    have hx : x = q := by simpa using hx
    exact ⟨_, _, _, hx ▸ hq⟩
  obtain ⟨m', hcalls, -, hmarked, -⟩ := hmarks [] m₀ (Run.nil m₀) (by decide) [q, q] hqs
  exact ⟨m₀, m', hbuild, q, _, _, _, hq, hcalls, hmarked⟩

end Maple.Terrain
