import Maple.Scene.Lookup

/-!
# Maple.Scene.Paths

**Looking up a path.** `Entity::findByPath` reads a path such as `../arm/hand` layer by layer
with two cursors: the entity found so far, and the children in which the next name is looked
up. A `..` sets the first cursor only, always to the parent of the entity that the search
started from, and a name that no child has is skipped; `resolve` says where the path leads,
layer by layer.

When the two agree is said of the path and of names. Cancelling names against `..`, as when a
path is normalised, leaves some `..` and then some names; in a forest, a path that resolves
leads where these do, and names lead down to an entity in one way only.
-/

namespace Maple

open Lib Registry

variable {V : Type} {r : Registry (Components V)} {kids : Handle → List Handle}

namespace Entity

/-! ### Paths -/

/-- The first child of `x` with the name. -/
def childNamed (r : Registry (Components V)) (kids : Handle → List Handle) (x : Handle)
    (name : String) : Option Handle :=
  (kids x).find? fun c => nameOf r c = some name

/-- Where one layer leads from `x`. -/
def resolveLayer (r : Registry (Components V)) (kids : Handle → List Handle) (x : Handle)
    (layer : String) : Option Handle :=
  if layer = ".." then r.link .parent x else childNamed r kids x layer

/-- Where the layers of a path lead from `x`, one after another. -/
def resolve (r : Registry (Components V)) (kids : Handle → List Handle) (x : Handle)
    (layers : List String) : Option Handle :=
  layers.foldlM (resolveLayer r kids) x

/-! ### Names that are found, and names that are left -/

/-- The layers that are found going down from `x`: each names a child of the entity that the
ones before it lead to. -/
def found (r : Registry (Components V)) (kids : Handle → List Handle) (x : Handle) :
    List String → List String
  | [] => []
  | layer :: layers =>
    if layer = ".." then found r kids x layers
    else match childNamed r kids x layer with
      | none => found r kids x layers
      | some c => layer :: found r kids c layers

/-- A name is cancelled by the `..` after it. -/
def cancel : Nat × List String → String → Nat × List String
  | (ups, names), layer =>
    if layer = ".." then
      if names = [] then (ups + 1, []) else (ups, names.dropLast)
    else (ups, names ++ [layer])

theorem cancel_name {layer : String} (hname : layer ≠ "..") (left : Nat × List String) :
    cancel left layer = (left.1, left.2 ++ [layer]) := if_neg hname

theorem cancel_up (ups : Nat) : cancel (ups, []) ".." = (ups + 1, []) := rfl

theorem cancel_concat (ups : Nat) (names : List String) (name : String) :
    cancel (ups, names ++ [name]) ".." = (ups, names) := by
  simp [cancel]

/-- What is left of a path: some `..`, and then some names. -/
def normalised (layers : List String) : Nat × List String := layers.foldl cancel (0, [])

/-- `ups` times `..`, and then the names. -/
def upThenDown (ups : Nat) (names : List String) : List String :=
  List.replicate ups ".." ++ names

theorem resolve_append (x : Handle) (front back : List String) :
    resolve r kids x (front ++ back) =
      (resolve r kids x front).bind fun y => resolve r kids y back :=
  List.foldlM_append ..

theorem resolve_singleton (x : Handle) (layer : String) :
    resolve r kids x [layer] = resolveLayer r kids x layer := by
  simp [resolve]

theorem resolveLayer_up (x : Handle) : resolveLayer r kids x ".." = r.link .parent x :=
  if_pos rfl

theorem resolveLayer_name {layer : String} (hname : layer ≠ "..") (x : Handle) :
    resolveLayer r kids x layer = childNamed r kids x layer := if_neg hname

theorem up_not_mem_normalised (layers : List String) : ".." ∉ (normalised layers).2 := by
  induction layers using List.reverseRecOn with
  | nil => exact List.not_mem_nil
  | append_singleton layers layer ih =>
      rw [normalised, List.foldl_concat]
      rw [normalised] at ih
      generalize List.foldl cancel (0, []) layers = left at ih ⊢
      obtain ⟨ups, names⟩ := left
      by_cases hup : layer = ".."
      · subst hup
        cases names using List.reverseRecOn with
        | nil => exact List.not_mem_nil
        | append_singleton names name =>
            rw [cancel_concat]
            exact fun hmem => ih (List.mem_append_left _ hmem)
      · rw [cancel_name hup, List.mem_append, List.mem_singleton]
        exact fun hmem => hmem.elim ih fun heq => hup heq.symm

theorem up_not_mem_found (x : Handle) (layers : List String) : ".." ∉ found r kids x layers := by
  induction layers generalizing x with
  | nil => exact List.not_mem_nil
  | cons layer layers ih =>
      rw [found]
      split
      next => exact ih x
      next hname =>
        split
        next => exact ih x
        next c _ =>
          rw [List.mem_cons]
          exact fun hmem => hmem.elim (fun heq => hname heq.symm) (ih c)

section

variable (h : Forest r kids)

include h

theorem parent_of_childNamed {x c : Handle} {name : String}
    (hc : childNamed r kids x name = some c) : r.link .parent c = some x :=
  (h.parent x c).mp (List.mem_of_find?_eq_some hc)

/-- The way to an entity ends with its name, from its parent. -/
theorem resolve_concat {a z : Handle} {names : List String} {name : String}
    (hnames : ".." ∉ names ++ [name]) (hz : resolve r kids a (names ++ [name]) = some z) :
    ∃ q, resolve r kids a names = some q ∧ childNamed r kids q name = some z ∧
      r.link .parent z = some q := by
  rw [resolve_append] at hz
  obtain ⟨q, hq, hz⟩ := Option.bind_eq_some_iff.mp hz
  have hname : name ≠ ".." := fun heq => hnames (by simp [heq])
  rw [resolve_singleton, resolveLayer_name hname] at hz
  exact ⟨q, hq, hz, parent_of_childNamed h hz⟩

theorem below_of_resolve {a z : Handle} {names : List String} (hnames : ".." ∉ names)
    (hz : resolve r kids a names = some z) : Below kids a z := by
  induction names using List.reverseRecOn generalizing z with
  | nil => exact Option.some.inj hz ▸ Relation.ReflTransGen.refl
  | append_singleton names name ih =>
      obtain ⟨q, hq, hz, -⟩ := resolve_concat h hnames hz
      exact (ih (fun hmem => hnames (List.mem_append_left _ hmem)) hq).tail
        (List.mem_of_find?_eq_some hz)

omit h in
/-- An entity has one name. -/
theorem names_eq_of_childNamed {q q' z : Handle} {name name' : String}
    (hz : childNamed r kids q name = some z) (hz' : childNamed r kids q' name' = some z) :
    name = name' := by
  have hname : nameOf r z = some name := by simpa using List.find?_some hz
  have hname' : nameOf r z = some name' := by simpa using List.find?_some hz'
  exact Option.some.inj (hname.symm.trans hname')

/-- Names lead down in one way only. -/
theorem names_unique {a z : Handle} {names names' : List String} (hnames : ".." ∉ names)
    (hnames' : ".." ∉ names') (hz : resolve r kids a names = some z)
    (hz' : resolve r kids a names' = some z) : names = names' := by
  have hself : ∀ {w : List String} {name : String}, ".." ∉ w ++ [name] →
      resolve r kids a (w ++ [name]) ≠ some a := by
    intro w name hw ha
    obtain ⟨q, hq, ha, -⟩ := resolve_concat h hw ha
    exact h.shape.not_below_parent (List.mem_of_find?_eq_some ha)
      (below_of_resolve h (fun hmem => hw (List.mem_append_left _ hmem)) hq)
  induction names using List.reverseRecOn generalizing z names' with
  | nil =>
      obtain rfl := Option.some.inj hz
      cases names' using List.reverseRecOn with
      | nil => rfl
      | append_singleton w name => exact absurd hz' (hself hnames')
  | append_singleton names name ih =>
      cases names' using List.reverseRecOn with
      | nil =>
          obtain rfl := Option.some.inj hz'
          exact absurd hz (hself hnames)
      | append_singleton w name' =>
          obtain ⟨q, hq, hc, hparent⟩ := resolve_concat h hnames hz
          obtain ⟨q', hq', hc', hparent'⟩ := resolve_concat h hnames' hz'
          obtain rfl := Option.some.inj (hparent.symm.trans hparent')
          obtain rfl := names_eq_of_childNamed hc hc'
          rw [ih (fun hmem => hnames (List.mem_append_left _ hmem))
            (fun hmem => hnames' (List.mem_append_left _ hmem)) hq hq']

/-- A path that resolves leads where what is left of it does. -/
theorem resolve_normalised {e y : Handle} {layers : List String}
    (hy : resolve r kids e layers = some y) :
    resolve r kids e (upThenDown (normalised layers).1 (normalised layers).2) = some y := by
  induction layers using List.reverseRecOn generalizing y with
  | nil => exact hy
  | append_singleton layers layer ih =>
      rw [resolve_append] at hy
      obtain ⟨x, hx, hy⟩ := Option.bind_eq_some_iff.mp hy
      rw [resolve_singleton] at hy
      have hup := up_not_mem_normalised layers
      have hleft := ih hx
      rw [normalised, List.foldl_concat]
      rw [normalised] at hup hleft
      generalize List.foldl cancel (0, []) layers = left at hup hleft ⊢
      obtain ⟨ups, names⟩ := left
      by_cases heq : layer = ".."
      · subst heq
        rw [resolveLayer_up] at hy
        cases names using List.reverseRecOn with
        | nil =>
            rw [cancel_up]
            rw [upThenDown, List.append_nil] at hleft ⊢
            rw [List.replicate_succ', resolve_append, hleft, Option.bind_some, resolve_singleton,
              resolveLayer_up, hy]
        | append_singleton names name =>
            -- the name has led down from the entity that the `..` leads back to
            rw [cancel_concat]
            rw [upThenDown, resolve_append] at hleft ⊢
            obtain ⟨a, ha, hleft⟩ := Option.bind_eq_some_iff.mp hleft
            obtain ⟨q, hq, -, hparent⟩ := resolve_concat h hup hleft
            rw [ha, Option.bind_some, hq, ← hparent, hy]
      · rw [cancel_name heq]
        rw [upThenDown, ← List.append_assoc, resolve_append]
        rw [upThenDown] at hleft
        rw [hleft, Option.bind_some, resolve_singleton, hy]

omit h in
theorem resolve_up {e a : Handle} {ups : Nat}
    (hup : resolve r kids e (List.replicate (ups + 1) "..") = some a) :
    ∃ p, r.link .parent e = some p ∧ resolve r kids p (List.replicate ups "..") = some a := by
  rw [List.replicate_succ, ← List.singleton_append, resolve_append, resolve_singleton,
    resolveLayer_up] at hup
  exact Option.bind_eq_some_iff.mp hup

theorem below_of_ups {e a : Handle} {ups : Nat}
    (hup : resolve r kids e (List.replicate ups "..") = some a) : Below kids a e := by
  induction ups generalizing e with
  | zero => exact Option.some.inj hup ▸ Relation.ReflTransGen.refl
  | succ ups ih =>
      obtain ⟨p, hp, hup⟩ := resolve_up hup
      exact (ih hup).tail ((h.parent p e).mpr hp)

/-- As many names lead back as `..` led up. -/
theorem length_back {e a : Handle} {ups : Nat} {names : List String} (hnames : ".." ∉ names)
    (hup : resolve r kids e (List.replicate ups "..") = some a)
    (hback : resolve r kids a names = some e) : names.length = ups := by
  induction ups generalizing e names with
  | zero =>
      obtain rfl := Option.some.inj hup
      rw [names_unique h hnames List.not_mem_nil hback (rfl : resolve r kids e [] = some e)]
      rfl
  | succ ups ih =>
      obtain ⟨p, hp, hup'⟩ := resolve_up hup
      cases names using List.reverseRecOn with
      | nil =>
          -- nobody is above itself
          obtain rfl := Option.some.inj hback
          exact absurd (below_of_ups h hup') (h.shape.not_below_parent ((h.parent p _).mpr hp))
      | append_singleton names name =>
          obtain ⟨q, hq, -, hparent⟩ := resolve_concat h hnames hback
          obtain rfl := Option.some.inj (hp.symm.trans hparent)
          rw [List.length_append, ih (fun hmem => hnames (List.mem_append_left _ hmem)) hup' hq]
          rfl

/-- The way down to an entity below `e`, from an entity above `e`, is by `e`. -/
theorem split_way {e a z : Handle} {ups : Nat} {names down : List String} (hnames : ".." ∉ names)
    (hdown : ".." ∉ down) (hup : resolve r kids e (List.replicate ups "..") = some a)
    (hz : resolve r kids a names = some z) (hbelow : resolve r kids e down = some z) :
    resolve r kids a (names.take ups) = some e ∧ names.drop ups = down := by
  induction down using List.reverseRecOn generalizing z names with
  | nil =>
      obtain rfl := Option.some.inj hbelow
      have hlength := length_back h hnames hup hz
      rw [List.take_of_length_le hlength.le, List.drop_of_length_le hlength.le]
      exact ⟨hz, rfl⟩
  | append_singleton down name ih =>
      obtain ⟨q, hq, hc, hparent⟩ := resolve_concat h hdown hbelow
      have hfront : ".." ∉ down := fun hmem => hdown (List.mem_append_left _ hmem)
      cases names using List.reverseRecOn with
      | nil =>
          obtain rfl := Option.some.inj hz
          have habove := (below_of_ups h hup).trans (below_of_resolve h hfront hq)
          exact absurd habove (h.shape.not_below_parent ((h.parent q _).mpr hparent))
      | append_singleton names name' =>
          obtain ⟨q', hq', hc', hparent'⟩ := resolve_concat h hnames hz
          obtain rfl := Option.some.inj (hparent.symm.trans hparent')
          obtain rfl := names_eq_of_childNamed hc hc'
          have hfront' : ".." ∉ names := fun hmem => hnames (List.mem_append_left _ hmem)
          obtain ⟨htake, hdrop⟩ := ih hfront' hfront hq' hq
          have hlength := length_back h (fun hmem => hfront' (List.mem_of_mem_take hmem)) hup htake
          rw [List.length_take] at hlength
          have hle : ups ≤ names.length := by omega
          rw [List.take_append_of_le_length hle, List.drop_append_of_le_length hle, hdrop]
          exact ⟨htake, rfl⟩

end

/-! ### The loop over the layers -/

/-- The two cursors of `findByPath`, the second one by the entity whose children it
holds. -/
def pathStep (r : Registry (Components V)) (kids : Handle → List Handle) (e : Handle) :
    Option Handle × Handle → String → Option Handle × Handle
  | (ent, x), layer =>
    if layer = ".." then (r.link .parent e, x)
    else match childNamed r kids x layer with
      | none => (ent, x)
      | some c => (some c, c)

/-- One layer. -/
theorem findLayer_settles (h : Forest r kids) (hnamed : ∀ x, r.Valid x → (nameOf r x).isSome)
    {e x : Handle} (hve : r.Valid e) (hvx : r.Valid x) (ent : Option Handle) (layer : String) :
    ∃ ent' x', pathStep r kids e (ent, x) layer = (ent', x') ∧ r.Valid x' ∧
      Settles (fun fuel => findLayer fuel r e (ent, kids x) layer) (.ok (ent', kids x')) := by
  by_cases hup : layer = ".."
  · refine ⟨r.link .parent e, x, if_pos hup, hvx, Settles.of_forall fun fuel => ?_⟩
    rw [findLayer, if_pos hup, getParent_eq hve]
    rfl
  · have hfind : findNamed r layer (kids x) = .ok (childNamed r kids x layer) :=
      findNamed_eq fun c hc => ⟨h.valid_child hc, hnamed c (h.valid_child hc)⟩
    cases hchild : childNamed r kids x layer with
    | none =>
        refine ⟨ent, x, ?_, hvx, Settles.of_forall fun fuel => ?_⟩
        · simp only [pathStep, if_neg hup, hchild]
        · simp only [findLayer, if_neg hup, hfind, hchild, Except.bind]
    | some c =>
        have hvc := h.valid_child (List.mem_of_find?_eq_some hchild)
        refine ⟨some c, c, ?_, hvc, ?_⟩
        · simp only [pathStep, if_neg hup, hchild]
        · refine ((getChildren_settles h hvc).comp
            (Except.map fun children => (some c, children))).congr fun fuel => ?_
          simp only [findLayer, if_neg hup, hfind, hchild, Except.bind]

/-- **The loop over the layers** of a path. -/
theorem findByPath_settles (h : Forest r kids) (hnamed : ∀ x, r.Valid x → (nameOf r x).isSome)
    {e : Handle} (hv : r.Valid e) {path : String} (hpath : path ≠ "") :
    Settles (fun fuel => findByPath fuel r e path)
      (.ok ((StringUtils.split path '/').foldl (pathStep r kids e) (none, e)).1) := by
  let I : List String → Option Handle × List Handle → Prop := fun rest s =>
    ∃ ent x, s = (ent, kids x) ∧ r.Valid x ∧ rest.foldl (pathStep r kids e) (ent, x) =
      (StringUtils.split path '/').foldl (pathStep r kids e) (none, e)
  have hstep : ∀ layer rest s, I (layer :: rest) s →
      ∃ s', Settles (fun fuel => findLayer fuel r e s layer) (.ok s') ∧ I rest s' := by
    intro layer rest s ⟨ent, x, hs, hvx, hfold⟩
    obtain ⟨ent', x', hpure, hvx', hrun⟩ := findLayer_settles h hnamed hv hvx ent layer
    rw [List.foldl_cons, hpure] at hfold
    exact ⟨(ent', kids x'), hs ▸ hrun, ent', x', rfl, hvx', hfold⟩
  obtain ⟨s', hrun, ent, x, rfl, -, hfold⟩ :=
    Settles.foldlM (f := fun fuel => findLayer fuel r e) (I := I) hstep ⟨none, e, rfl, hv, rfl⟩
  rw [← hfold]
  refine ((getChildren_settles h hv).except_bind (g := fun children fuel =>
    ((StringUtils.split path '/').foldlM (findLayer fuel r e) (none, children)).map Prod.fst)
    (hrun.comp (Except.map Prod.fst))).congr fun fuel => ?_
  rw [findByPath, if_neg hpath]

/-- The second cursor goes down by the layers that are found. -/
theorem resolve_found (r : Registry (Components V)) (kids : Handle → List Handle) (e : Handle)
    (s : Option Handle × Handle) (layers : List String) :
    resolve r kids s.2 (found r kids s.2 layers) =
      some (layers.foldl (pathStep r kids e) s).2 := by
  induction layers generalizing s with
  | nil => rfl
  | cons layer layers ih =>
      obtain ⟨ent, x⟩ := s
      rw [List.foldl_cons, ← ih]
      by_cases hup : layer = ".."
      · simp only [pathStep, found, if_pos hup]
      · cases hchild : childNamed r kids x layer with
        | none => simp only [pathStep, found, if_neg hup, hchild]
        | some c =>
            simp only [pathStep, found, if_neg hup, hchild]
            rw [← List.singleton_append, resolve_append, resolve_singleton, resolveLayer_name hup,
              hchild, Option.bind_some]

/-- Without `..`, the first cursor stays until a layer is found, and is then with the
second one. -/
theorem pathStep_fst (r : Registry (Components V)) (kids : Handle → List Handle) (e : Handle)
    {layers : List String} (hdown : ".." ∉ layers) (ent : Option Handle) (x : Handle) :
    (layers.foldl (pathStep r kids e) (ent, x)).1 =
      if found r kids x layers = [] then ent
      else some (layers.foldl (pathStep r kids e) (ent, x)).2 := by
  induction layers generalizing ent x with
  | nil => rfl
  | cons layer layers ih =>
      have hname : layer ≠ ".." := fun heq => hdown (by simp [heq])
      have hrest : ".." ∉ layers := fun hmem => hdown (List.mem_cons_of_mem _ hmem)
      rw [List.foldl_cons]
      cases hchild : childNamed r kids x layer with
      | none =>
          have hstep : pathStep r kids e (ent, x) layer = (ent, x) := by
            simp only [pathStep, if_neg hname, hchild]
          have hfound : found r kids x (layer :: layers) = found r kids x layers := by
            simp only [found, if_neg hname, hchild]
          rw [hstep, hfound, ih hrest]
      | some c =>
          have hstep : pathStep r kids e (ent, x) layer = (some c, c) := by
            simp only [pathStep, if_neg hname, hchild]
          have hfound : found r kids x (layer :: layers) = layer :: found r kids c layers := by
            simp only [found, if_neg hname, hchild]
          rw [hstep, hfound, ih hrest, if_neg (List.cons_ne_nil _ _)]
          split
          next hnil =>
            have hstay := resolve_found r kids e (some c, c) layers
            rw [hnil] at hstay
            exact hstay
          next => rfl

theorem found_append {x y : Handle} {front : List String} (back : List String)
    (hy : resolve r kids x (found r kids x front) = some y) :
    found r kids x (front ++ back) = found r kids x front ++ found r kids y back := by
  induction front generalizing x with
  | nil =>
      obtain rfl := Option.some.inj hy
      rfl
  | cons layer front ih =>
      by_cases hup : layer = ".."
      · simp only [List.cons_append, found, if_pos hup] at hy ⊢
        exact ih hy
      · cases hchild : childNamed r kids x layer with
        | none =>
            simp only [List.cons_append, found, if_neg hup, hchild] at hy ⊢
            exact ih hy
        | some c =>
            simp only [List.cons_append, found, if_neg hup, hchild] at hy ⊢
            rw [← List.singleton_append, resolve_append, resolve_singleton,
              resolveLayer_name hup, hchild, Option.bind_some] at hy
            rw [ih hy]

/-- All layers are found on a path of names that resolves. -/
theorem found_of_resolve {x y : Handle} {layers : List String} (hdown : ".." ∉ layers)
    (hy : resolve r kids x layers = some y) : found r kids x layers = layers := by
  induction layers generalizing x with
  | nil => rfl
  | cons layer layers ih =>
      have hname : layer ≠ ".." := fun heq => hdown (by simp [heq])
      rw [← List.singleton_append, resolve_append, resolve_singleton,
        resolveLayer_name hname] at hy
      obtain ⟨c, hc, hy⟩ := Option.bind_eq_some_iff.mp hy
      simp only [found, if_neg hname, hc]
      rw [ih (fun hmem => hdown (List.mem_cons_of_mem _ hmem)) hy]

/-! ### When a path is followed -/

/-- Every layer resolves, what is left of the path has one `..` more than names, and leads
to the parent of `e`. -/
structure LeadsToParent (r : Registry (Components V)) (kids : Handle → List Handle) (e : Handle)
    (layers : List String) : Prop where
  resolves : (resolve r kids e layers).isSome
  ups : (normalised layers).1 = (normalised layers).2.length + 1
  back : resolve r kids e (upThenDown (normalised layers).1 (normalised layers).2) =
    r.link .parent e

/-- Every layer resolves, and of what is left of the path as many names as there are `..` lead
back to `e`, and the other names are those that are found. -/
structure LeadsBelow (r : Registry (Components V)) (kids : Handle → List Handle) (e : Handle)
    (layers : List String) : Prop where
  resolves : (resolve r kids e layers).isSome
  back : resolve r kids e
    (upThenDown (normalised layers).1 ((normalised layers).2.take (normalised layers).1)) = some e
  down : (normalised layers).2.drop (normalised layers).1 = found r kids e layers

/-- When `findByPath` gives the entity that the layers lead to. Without `..`: every layer
resolves, or none is found. With `..` it depends on whether a layer after the last one is
found. If not, the path has to lead to the parent of `e`, or nowhere if there is none; else it
has to lead down by the layers that are found. -/
def Followed (r : Registry (Components V)) (kids : Handle → List Handle) (e : Handle)
    (layers : List String) : Prop :=
  (".." ∉ layers → (resolve r kids e layers).isSome ∨ found r kids e layers = []) ∧
  ∀ before after, layers = before ++ ".." :: after → ".." ∉ after →
    (found r kids e layers = found r kids e before →
      r.link .parent e = none ∧ ¬ (resolve r kids e layers).isSome ∨
        LeadsToParent r kids e layers) ∧
    (found r kids e layers ≠ found r kids e before → LeadsBelow r kids e layers)

/-- The last `..` of a list of layers. -/
theorem exists_last_up {layers : List String} (hup : ".." ∈ layers) :
    ∃ before after, layers = before ++ ".." :: after ∧ ".." ∉ after := by
  induction layers with
  | nil => exact absurd hup List.not_mem_nil
  | cons layer layers ih =>
      by_cases hrest : ".." ∈ layers
      · obtain ⟨before, after, heq, hdown⟩ := ih hrest
        exact ⟨layer :: before, after, by rw [heq]; rfl, hdown⟩
      · rcases List.mem_cons.mp hup with heq | hmem
        · exact ⟨[], layers, by rw [← heq]; rfl, hrest⟩
        · exact absurd hmem hrest

/-- Without `..` both cursors go down together. -/
theorem followed_of_down {e : Handle} {layers : List String} (hne : layers ≠ [])
    (hdown : ".." ∉ layers) :
    (layers.foldl (pathStep r kids e) (none, e)).1 = resolve r kids e layers ↔
      (resolve r kids e layers).isSome ∨ found r kids e layers = [] := by
  rw [pathStep_fst r kids e hdown]
  have hsnd := resolve_found r kids e (none, e) layers
  cases hres : resolve r kids e layers with
  | none =>
      split
      next hnil => exact iff_of_true rfl (Or.inr hnil)
      next hfound => exact iff_of_false nofun fun hor => hor.elim nofun hfound
  | some y =>
      have hall := found_of_resolve hdown hres
      rw [hall, hres] at hsnd
      rw [hall, if_neg hne, hsnd]
      exact iff_of_true rfl (Or.inl rfl)

section

variable (h : Forest r kids) {e : Handle} {layers : List String}

include h

theorem leadsToParent_iff :
    r.link .parent e = resolve r kids e layers ↔
      r.link .parent e = none ∧ ¬ (resolve r kids e layers).isSome ∨
        LeadsToParent r kids e layers := by
  constructor
  · intro heq
    cases hres : resolve r kids e layers with
    | none => exact Or.inl ⟨heq.trans hres, nofun⟩
    | some p =>
        have hleft := resolve_normalised h hres
        refine Or.inr ⟨by rw [hres]; rfl, ?_, by rw [hleft, heq, hres]⟩
        rw [upThenDown, resolve_append] at hleft
        obtain ⟨a, ha, hp⟩ := Option.bind_eq_some_iff.mp hleft
        have hchild : e ∈ kids p := (h.parent p e).mpr (heq.trans hres)
        -- the path goes above `e`, and then back to the parent
        generalize (normalised layers).1 = ups at ha ⊢
        cases ups with
        | zero =>
            obtain rfl := Option.some.inj ha
            exact absurd (below_of_resolve h (up_not_mem_normalised layers) hp)
              (h.shape.not_below_parent hchild)
        | succ ups =>
            obtain ⟨q, hq, ha⟩ := resolve_up ha
            obtain rfl := Option.some.inj (hq.symm.trans (heq.trans hres))
            rw [length_back h (up_not_mem_normalised layers) ha hp]
  · rintro (⟨hroot, hnone⟩ | ⟨hres, -, hback⟩)
    · rw [hroot, Option.not_isSome_iff_eq_none.mp hnone]
    · obtain ⟨y, hy⟩ := Option.isSome_iff_exists.mp hres
      rw [← hback, hy, resolve_normalised h hy]

theorem leadsBelow_iff {z : Handle} (hz : resolve r kids e (found r kids e layers) = some z) :
    some z = resolve r kids e layers ↔ LeadsBelow r kids e layers := by
  constructor
  · intro heq
    have hleft := resolve_normalised h heq.symm
    rw [upThenDown, resolve_append] at hleft
    obtain ⟨a, ha, hz'⟩ := Option.bind_eq_some_iff.mp hleft
    obtain ⟨hback, hdown⟩ := split_way h (up_not_mem_normalised layers) (up_not_mem_found e layers)
      ha hz' hz
    exact ⟨by rw [← heq]; rfl, by rw [upThenDown, resolve_append, ha, Option.bind_some, hback],
      hdown⟩
  · rintro ⟨hres, hback, hdown⟩
    obtain ⟨y, hy⟩ := Option.isSome_iff_exists.mp hres
    have hleft := resolve_normalised h hy
    rw [upThenDown, ← List.take_append_drop (normalised layers).1 (normalised layers).2,
      ← List.append_assoc, resolve_append] at hleft
    rw [upThenDown] at hback
    rw [hback, Option.bind_some, hdown, hz] at hleft
    rw [hleft, hy]

/-- Since the last `..`, the first cursor is at the parent of `e`, or where the second
one is. -/
theorem followed_of_up {before after : List String} (hlayers : layers = before ++ ".." :: after)
    (hdown : ".." ∉ after) :
    (layers.foldl (pathStep r kids e) (none, e)).1 = resolve r kids e layers ↔
      (found r kids e layers = found r kids e before →
        r.link .parent e = none ∧ ¬ (resolve r kids e layers).isSome ∨
          LeadsToParent r kids e layers) ∧
      (found r kids e layers ≠ found r kids e before → LeadsBelow r kids e layers) := by
  -- the second cursor before the last `..` and at the end
  have hbefore := resolve_found r kids e (none, e) before
  have hend := resolve_found r kids e (none, e) layers
  have hfound := found_append (".." :: after) hbefore
  rw [← hlayers] at hfound
  have hlast : (layers.foldl (pathStep r kids e) (none, e)) = after.foldl (pathStep r kids e)
      (r.link .parent e, (before.foldl (pathStep r kids e) (none, e)).2) := by
    rw [hlayers, List.foldl_append, List.foldl_cons]
    rfl
  have hafter : found r kids (before.foldl (pathStep r kids e) (none, e)).2 (".." :: after) =
      found r kids (before.foldl (pathStep r kids e) (none, e)).2 after := if_pos rfl
  rw [hafter] at hfound
  have hfst := pathStep_fst r kids e hdown (r.link .parent e)
    (before.foldl (pathStep r kids e) (none, e)).2
  rw [← hlast] at hfst
  rw [hfst]
  by_cases hnil : found r kids (before.foldl (pathStep r kids e) (none, e)).2 after = []
  · rw [if_pos hnil, leadsToParent_iff h]
    have hsame : found r kids e layers = found r kids e before := by
      rw [hfound, hnil, List.append_nil]
    exact ⟨fun hor => ⟨fun _ => hor, absurd hsame⟩, fun hboth => hboth.1 hsame⟩
  · rw [if_neg hnil, leadsBelow_iff h hend]
    have hmore : found r kids e layers ≠ found r kids e before := by
      rw [hfound]
      exact fun heq => hnil (List.append_right_eq_self.mp heq)
    exact ⟨fun hlead => ⟨fun hsame => absurd hsame hmore, fun _ => hlead⟩,
      fun hboth => hboth.2 hmore⟩

end

/-- **When `findByPath` follows the path.** -/
theorem findByPath_follows_iff (h : Forest r kids)
    (hnamed : ∀ x, r.Valid x → (nameOf r x).isSome) {e : Handle} (hv : r.Valid e) {path : String}
    (hpath : path ≠ "") :
    Settles (fun fuel => findByPath fuel r e path)
        (.ok (resolve r kids e (StringUtils.split path '/'))) ↔
      Followed r kids e (StringUtils.split path '/') := by
  have hrun := findByPath_settles h hnamed hv hpath
  have hne : StringUtils.split path '/' ≠ [] := StringUtils.splitFrom_ne_nil _ _ _
  generalize StringUtils.split path '/' = layers at hrun hne ⊢
  have hiff : Settles (fun fuel => findByPath fuel r e path) (.ok (resolve r kids e layers)) ↔
      (layers.foldl (pathStep r kids e) (none, e)).1 = resolve r kids e layers :=
    ⟨fun hres => Except.ok.inj (hrun.unique hres), fun heq => heq ▸ hrun⟩
  rw [hiff, Followed]
  by_cases hup : ".." ∈ layers
  · obtain ⟨before, after, hlayers, hdown⟩ := exists_last_up hup
    refine ⟨fun heq => ⟨absurd hup, fun before' after' hlayers' hdown' => ?_⟩, fun hfollow => ?_⟩
    · exact (followed_of_up h hlayers' hdown').mp heq
    · exact (followed_of_up h hlayers hdown).mpr (hfollow.2 before after hlayers hdown)
  · rw [followed_of_down hne hup]
    refine ⟨fun hor => ⟨fun _ => hor, fun before after hlayers => ?_⟩, fun hfollow => hfollow.1 hup⟩
    exact absurd (by simp [hlayers]) hup

/-- The path to the parent. -/
theorem findByPath_follows_up :
    Settles (fun fuel => findByPath fuel (namedPair "body" "arm") ⟨1, 0⟩ "..")
      (.ok (resolve (namedPair "body" "arm") (Function.update (fun _ => []) ⟨0, 0⟩ [⟨1, 0⟩])
        ⟨1, 0⟩ (StringUtils.split ".." '/'))) := by
  refine (findByPath_follows_iff (forest_namedPair "body" "arm") (named_namedPair "body" "arm")
    (by decide) (by decide)).mpr ⟨fun hdown => absurd (by decide) hdown, ?_⟩
  intro before after hlayers _
  have hsplit : StringUtils.split ".." '/' = [".."] := by decide
  rw [hsplit] at hlayers ⊢
  obtain rfl : before = [] := by
    cases before with
    | nil => rfl
    | cons layer before => simp at hlayers
  exact ⟨fun _ => Or.inr ⟨by decide, by decide, by decide⟩, fun hmore => absurd rfl hmore⟩

/-- A layer that names no child is skipped: `leg/arm` finds the arm. -/
theorem findByPath_skips_layer :
    Forest (namedPair "body" "arm") (Function.update (fun _ => []) ⟨0, 0⟩ [⟨1, 0⟩]) ∧
      (∀ x, (namedPair "body" "arm").Valid x → (nameOf (namedPair "body" "arm") x).isSome) ∧
      (namedPair "body" "arm").Valid ⟨0, 0⟩ ∧
      StringUtils.split "leg/arm" '/' = ["leg", "arm"] ∧
      resolve (namedPair "body" "arm") (Function.update (fun _ => []) ⟨0, 0⟩ [⟨1, 0⟩]) ⟨0, 0⟩
        ["leg", "arm"] = none ∧
      Settles (fun fuel => findByPath fuel (namedPair "body" "arm") ⟨0, 0⟩ "leg/arm")
        (.ok (some ⟨1, 0⟩)) := by
  refine ⟨forest_namedPair "body" "arm", named_namedPair "body" "arm", by decide, by decide,
    by decide, ?_⟩
  exact findByPath_settles (forest_namedPair "body" "arm") (named_namedPair "body" "arm")
    (by decide) (by decide)

end Entity

end Maple
