import Mathlib.Data.List.Induction
import Mathlib.Logic.Function.Basic
import Maple.Others.StringUtils
import Maple.Vulkan.PipelineLayout

/-!
# Maple.Vulkan.ShaderSource

`VulkanShader::parseSource`: a line of a shader description that starts with `#` names a
stage in its first token and the file with its code in the second. **The last line that
gives a stage a file decides**, and the other lines are skipped, except that the second
token is read without a look at how many there are: a line that names a stage and has no
second token is out of range.
-/

namespace Maple.Vulkan

open Lib (OutOfRange)
open StringUtils (contains split startWith trim)

/-- `getShaderTypeByName`. -/
def getShaderTypeByName (name : String) : ShaderType :=
  if contains name "Vertex" then .vertexShader
  else if contains name "Fragment" then .fragmentShader
  else if contains name "Geometry" then .geometryShader
  else if contains name "Compute" then .computeShader
  else .unknown

/-- The map from stages to files. -/
abbrev Shaders := ShaderType → Option String

/-- The body of the loop of `parseSource`. -/
def parseLine (shaders : Shaders) (str : String) : Except OutOfRange Shaders :=
  if startWith str "#" then
    let path := split str ' '
    match path[0]? with
    | none => .error (.at 0)
    | some name =>
      let type := getShaderTypeByName name
      if type = .unknown then .ok shaders
      else match path[1]? with
        | none => .error (.at 1)
        | some file => .ok (Function.update shaders type (some (trim file "\r")))
  else .ok shaders

/-- `VulkanShader::parseSource`. -/
def parseSource (lines : List String) (shaders : Shaders) : Except OutOfRange Shaders :=
  lines.foldlM parseLine shaders

/-! ### What a line says -/

/-- The line starts with `#`, its first token names the stage, and its second token,
without carriage returns around it, is the path. -/
def Gives (line : String) (type : ShaderType) (path : String) : Prop :=
  startWith line "#" ∧ ∃ first second rest, split line ' ' = first :: second :: rest ∧
    getShaderTypeByName first = type ∧ type ≠ .unknown ∧ trim second "\r" = path

/-- The line starts with `#` and names a stage, and there is no space in it. -/
def Pathless (line : String) : Prop :=
  startWith line "#" ∧ ' ' ∉ line.toList ∧ getShaderTypeByName line ≠ .unknown

/-- The last line that gives the stage a path gives it this one. -/
def LastGiven (lines : List String) (type : ShaderType) (path : String) : Prop :=
  ∃ before line after, lines = before ++ line :: after ∧ Gives line type path ∧
    ∀ later ∈ after, ∀ other, ¬ Gives later type other

theorem Gives.unique {line : String} {type type' : ShaderType} {path path' : String}
    (h : Gives line type path) (h' : Gives line type' path') : type = type' ∧ path = path' := by
  obtain ⟨-, first, second, rest, hsplit, rfl, -, rfl⟩ := h
  obtain ⟨-, first', second', rest', hsplit', rfl, -, rfl⟩ := h'
  obtain ⟨rfl, hrest⟩ := List.cons.inj (hsplit.symm.trans hsplit')
  obtain ⟨rfl, -⟩ := List.cons.inj hrest
  exact ⟨rfl, rfl⟩

/-- What the loop does with a line. -/
theorem parseLine_cases (shaders : Shaders) (line : String) :
    (Pathless line ∧ parseLine shaders line = .error (.at 1)) ∨
    ¬ Pathless line ∧
      ((∃ type path, Gives line type path ∧
        parseLine shaders line = .ok (Function.update shaders type (some path))) ∨
      (∀ type path, ¬ Gives line type path) ∧ parseLine shaders line = .ok shaders) := by
  by_cases hstart : startWith line "#"
  · cases hsplit : split line ' ' with
    | nil => exact absurd hsplit (StringUtils.splitFrom_ne_nil _ _ _)
    | cons first rest =>
        by_cases htype : getShaderTypeByName first = .unknown
        · refine .inr ⟨?_, .inr ⟨?_, ?_⟩⟩
          · intro hpathless
            obtain ⟨-, hspace, hnamed⟩ := hpathless
            have hline := StringUtils.split_eq_singleton_iff.mpr ⟨hspace, rfl⟩
            obtain ⟨rfl, -⟩ := List.cons.inj (hsplit.symm.trans hline)
            exact hnamed htype
          · intro type path hgives
            obtain ⟨-, first', second, rest', hsplit', rfl, hnamed, -⟩ := hgives
            obtain ⟨rfl, -⟩ := List.cons.inj (hsplit.symm.trans hsplit')
            exact hnamed htype
          · simp [parseLine, hstart, hsplit, htype]
        · cases rest with
          | nil =>
              obtain ⟨hspace, rfl⟩ := StringUtils.split_eq_singleton_iff.mp hsplit
              refine .inl ⟨⟨hstart, hspace, htype⟩, ?_⟩
              simp [parseLine, hstart, hsplit, htype]
          | cons second rest =>
              refine .inr ⟨?_, .inl ⟨_, _, ⟨hstart, _, _, _, hsplit, rfl, htype, rfl⟩, ?_⟩⟩
              · intro hpathless
                have hline := StringUtils.split_eq_singleton_iff.mpr ⟨hpathless.2.1, rfl⟩
                exact absurd (hsplit.symm.trans hline) (by simp)
              · simp [parseLine, hstart, hsplit, htype]
  · refine .inr ⟨fun hpathless => hstart hpathless.1, .inr ⟨fun _ _ h => hstart h.1, ?_⟩⟩
    rw [parseLine, if_neg hstart]

/-! ### The lines in order -/

theorem parseSource_append (lines : List String) (line : String) (shaders : Shaders) :
    parseSource (lines ++ [line]) shaders =
      (parseSource lines shaders).bind (parseLine · line) := by
  rw [parseSource, List.foldlM_append]
  exact congrArg _ (funext fun mid => by simp)

theorem not_lastGiven_nil (type : ShaderType) (path : String) : ¬ LastGiven [] type path := by
  intro h
  obtain ⟨before, line, after, heq, -⟩ := h
  exact absurd heq (by simp)

theorem lastGiven_append {lines : List String} {line : String} {type : ShaderType} {path : String} :
    LastGiven (lines ++ [line]) type path ↔
      Gives line type path ∨ (∀ other, ¬ Gives line type other) ∧ LastGiven lines type path := by
  constructor
  · intro h
    obtain ⟨before, last, after, heq, hgives, hafter⟩ := h
    cases after using List.reverseRecOn with
    | nil =>
        obtain ⟨-, hline⟩ := List.append_inj' heq rfl
        exact .inl ((List.cons.inj hline).1 ▸ hgives)
    | append_singleton after later =>
        rw [← List.cons_append, ← List.append_assoc] at heq
        obtain ⟨rfl, hline⟩ := List.append_inj' heq rfl
        obtain rfl := (List.cons.inj hline).1
        refine .inr ⟨hafter line (by simp), before, last, after, rfl, hgives, fun mid hmid => ?_⟩
        exact hafter mid (List.mem_append_left _ hmid)
  · intro h
    cases h with
    | inl hgives => exact ⟨lines, line, [], rfl, hgives, fun _ h => absurd h List.not_mem_nil⟩
    | inr h =>
        obtain ⟨hline, before, last, after, rfl, hgives, hafter⟩ := h
        refine ⟨before, last, after ++ [line], by simp, hgives, fun mid hmid => ?_⟩
        cases List.mem_append.mp hmid with
        | inl hmid => exact hafter mid hmid
        | inr hmid => exact List.mem_singleton.mp hmid ▸ hline

/-- The map after the lines, when none of them is without a path. -/
theorem parseSource_ok (lines : List String) (hpaths : ∀ line ∈ lines, ¬ Pathless line) :
    ∃ shaders, parseSource lines (fun _ => none) = .ok shaders ∧
      ∀ type path, shaders type = some path ↔ LastGiven lines type path := by
  induction lines using List.reverseRecOn with
  | nil => exact ⟨_, rfl, fun type path => iff_of_false nofun (not_lastGiven_nil type path)⟩
  | append_singleton lines line ih =>
      obtain ⟨shaders, hparse, hshaders⟩ := ih fun l hl => hpaths l (List.mem_append_left _ hl)
      have hstep : parseSource (lines ++ [line]) (fun _ => none) = parseLine shaders line := by
        rw [parseSource_append, hparse]
        rfl
      rw [hstep]
      rcases parseLine_cases shaders line with h | ⟨-, h | h⟩
      · exact absurd h.1 (hpaths line (by simp))
      · obtain ⟨type, path, hgives, heq⟩ := h
        refine ⟨_, heq, fun type' path' => ?_⟩
        rw [lastGiven_append, ← hshaders]
        by_cases htype : type' = type
        · subst htype
          rw [Function.update_self, Option.some.injEq]
          constructor
          · intro heq
            exact .inl (heq ▸ hgives)
          · intro h
            cases h with
            | inl h => exact (hgives.unique h).2
            | inr h => exact absurd hgives (h.1 path)
        · rw [Function.update_of_ne htype]
          have hnone : ∀ other, ¬ Gives line type' other :=
            fun other h => htype (h.unique hgives).1
          exact ⟨fun h => .inr ⟨hnone, h⟩, fun h => h.elim (absurd · (hnone path')) And.right⟩
      · obtain ⟨hnone, heq⟩ := h
        refine ⟨_, heq, fun type path => ?_⟩
        rw [lastGiven_append, ← hshaders]
        exact ⟨fun h => .inr ⟨hnone type, h⟩,
          fun h => h.elim (absurd · (hnone type path)) And.right⟩

/-- A line without a path ends the loop. -/
theorem parseSource_error {lines : List String} {line : String} (hline : line ∈ lines)
    (hpathless : Pathless line) (shaders : Shaders) :
    parseSource lines shaders = .error (.at 1) := by
  induction lines generalizing shaders with
  | nil => exact absurd hline List.not_mem_nil
  | cons first lines ih =>
      have hcons : parseSource (first :: lines) shaders =
          (parseLine shaders first).bind (parseSource lines) := rfl
      rw [hcons]
      rcases parseLine_cases shaders first with h | ⟨hfirst, h⟩
      · rw [h.2]
        rfl
      · have hmem : line ∈ lines :=
          (List.mem_cons.mp hline).resolve_left fun heq => hfirst (heq ▸ hpathless)
        rcases h with ⟨_, _, _, heq⟩ | ⟨_, heq⟩
        · rw [heq]
          exact ih hmem _
        · rw [heq]
          exact ih hmem _

/-- **Shader description parsing.** For every text: no token past the end of a line is
read, and the map holds for each stage the path of the last line that gives it one and
nothing else, if and only if no line names a stage without a space behind it. -/
theorem parseSource_iff (text : String) :
    (∃ shaders, parseSource (split text '\n') (fun _ => none) = .ok shaders ∧
      ∀ type path, shaders type = some path ↔ LastGiven (split text '\n') type path) ↔
    ∀ line ∈ split text '\n', ¬ Pathless line := by
  constructor
  · intro h line hline hpathless
    obtain ⟨shaders, hparse, -⟩ := h
    exact nomatch (parseSource_error hline hpathless _).symm.trans hparse
  · exact parseSource_ok _

/-- The stage line without a path has an effect. -/
theorem parseSource_pathless :
    ¬ ∃ shaders, parseSource (split "#Vertex" '\n') (fun _ => none) = .ok shaders ∧
      ∀ type path, shaders type = some path ↔ LastGiven (split "#Vertex" '\n') type path := by
  intro h
  obtain ⟨shaders, hparse, -⟩ := h
  have herror : parseSource (split "#Vertex" '\n') (fun _ => none) = .error (.at 1) := by rfl
  exact nomatch herror.symm.trans hparse

end Maple.Vulkan
