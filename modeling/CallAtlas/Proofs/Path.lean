import CallAtlas.Disk
import Mathlib.Data.List.Basic

/-!
# Where paths lead

A disk follows a path step by step and looks at everything on the way. Where the
path leads does not depend on what it sees: it can be said from the text of the
path alone. So one can tell from their paths whether two files are the same,
above all for names in one directory and for the drafts beside them.
-/

namespace CallAtlas

namespace Disk

/-- The address one step from another one, whatever is there. -/
def onward (a : Address) (step : String) : Address :=
  if step = "." then a else if step = ".." then a.dropLast else a ++ [step]

theorem onward_dot (a : Address) : onward a "." = a :=
  if_pos rfl

end Disk

namespace Path

/-! ## Steps -/

/-- The text of one step of a path. -/
structure IsStep (step : String) : Prop where
  nonempty : step ≠ ""
  noSlash : '/' ∉ step.toList

/-- A step that leads to something of that name. -/
structure IsName (name : String) : Prop extends IsStep name where
  ne_dot : name ≠ "."
  ne_dots : name ≠ ".."

theorem toList_isEmpty_eq_false {text : String} (h : text ≠ "") :
    text.toList.isEmpty = false := by
  rw [List.isEmpty_eq_false_iff]
  intro hnil
  exact h (String.toList_inj.mp hnil)

/-- The steps that a text is parted into. -/
def stepsOf (text : List Char) : List String :=
  ((text.splitOnP (· = '/')).filter fun step => !step.isEmpty).map String.ofList

theorem stepsOf_append_slash (front back : List Char) :
    stepsOf (front ++ '/' :: back) = stepsOf front ++ stepsOf back := by
  rw [stepsOf, List.splitOnP_append_cons front back (by simp), List.filter_append, List.map_append]
  rfl

theorem stepsOf_step {step : String} (h : IsStep step) : stepsOf step.toList = [step] := by
  have hslash : ∀ c ∈ step.toList, decide (c = '/') = false := by
    intro c hc
    rw [decide_eq_false_iff_not]
    rintro rfl
    exact h.noSlash hc
  rw [stepsOf, List.splitOnP_eq_singleton hslash,
    List.filter_cons_of_pos (by rw [toList_isEmpty_eq_false h.nonempty]; rfl), List.filter_nil,
    List.map_singleton, String.ofList_toList]

theorem not_mem_of_mem_splitOnP {text part : List Char}
    (h : part ∈ text.splitOnP (· = '/')) : '/' ∉ part := by
  induction text generalizing part with
  | nil =>
      obtain rfl := List.mem_singleton.mp h
      exact List.not_mem_nil
  | cons c text ih =>
      rw [List.splitOnP_cons_eq_if_modifyHead] at h
      by_cases hc : c = '/'
      · rw [if_pos (by simpa using hc)] at h
        rcases List.mem_cons.mp h with rfl | hpart
        · exact List.not_mem_nil
        · exact ih hpart
      · rw [if_neg (by simpa using hc)] at h
        obtain ⟨first, parts, hparts⟩ := List.exists_cons_of_ne_nil
          (List.splitOnP_ne_nil (p := fun c => decide (c = '/')) text)
        rw [hparts, List.modifyHead_cons] at h
        rcases List.mem_cons.mp h with rfl | hpart
        · intro hslash
          rcases List.mem_cons.mp hslash with heq | hslash
          · exact hc heq.symm
          · exact ih (hparts ▸ List.mem_cons_self) hslash
        · exact ih (hparts ▸ List.mem_cons_of_mem _ hpart)

theorem isStep_of_mem_steps {p : Path} {step : String} (h : step ∈ p.steps) : IsStep step := by
  obtain ⟨part, hpart, rfl⟩ := List.mem_map.mp h
  obtain ⟨hsplit, hfull⟩ := List.mem_filter.mp hpart
  refine ⟨?_, ?_⟩
  · intro hempty
    have hnil : part = [] := by simpa using congrArg String.toList hempty
    rw [hnil] at hfull
    cases hfull
  · rw [String.toList_ofList]
    exact not_mem_of_mem_splitOnP hsplit

/-! ## Names in a directory -/

theorem steps_eq_stepsOf (p : Path) : p.steps = stepsOf p.text.toList :=
  rfl

theorem isAbsolute_name {name : String} (h : IsStep name) : (⟨name⟩ : Path).isAbsolute = false := by
  rw [isAbsolute]
  cases hname : name.toList with
  | nil => rfl
  | cons c rest =>
      have hne : c ≠ '/' := by
        rintro rfl
        exact h.noSlash (hname ▸ List.mem_cons_self)
      simpa using hne

/-- Only the top can be reached without a step. -/
theorem isAbsolute_of_steps_eq_nil {p : Path} (htext : p.text ≠ "") (h : p.steps = []) :
    p.isAbsolute := by
  obtain ⟨c, rest, hcons⟩ := List.exists_cons_of_ne_nil
    (l := p.text.toList) (fun hnil => htext (String.toList_inj.mp hnil))
  by_cases hc : c = '/'
  · rw [isAbsolute, hcons, hc]
    rfl
  · obtain ⟨first, parts, hparts⟩ := List.exists_cons_of_ne_nil
      (List.splitOnP_ne_nil (p := fun c => decide (c = '/')) rest)
    rw [steps_eq_stepsOf, stepsOf, hcons, List.splitOnP_cons_eq_if_modifyHead,
      if_neg (by simpa using hc), hparts, List.modifyHead_cons,
      List.filter_cons_of_pos (by rfl), List.map_cons] at h
    cases h

theorem toList_child {p : Path} {name : String} (h : IsStep name) :
    p.text = "" ∧ (p.child name).text = name ∨
      ∃ front, (p.child name).text.toList = front ++ '/' :: name.toList ∧
        stepsOf front = p.steps ∧ ∀ back, (front ++ '/' :: back).head? = p.text.toList.head? := by
  rw [child, join, if_neg (by rw [isAbsolute_name h]; exact Bool.false_ne_true)]
  by_cases hempty : p.text = ""
  · refine Or.inl ⟨hempty, ?_⟩
    rw [if_pos (Or.inl (String.isEmpty_iff.mpr hempty)), hempty]
    exact String.empty_append
  · right
    by_cases hslash : p.endsInSlash
    · have hlast : p.text.toList.getLast? = some '/' := by simpa [endsInSlash] using hslash
      obtain ⟨front, hfront⟩ := List.getLast?_eq_some_iff.mp hlast
      refine ⟨front, ?_, ?_, ?_⟩
      · rw [if_pos (Or.inr hslash), String.toList_append, hfront, List.append_assoc]
        rfl
      · rw [steps_eq_stepsOf, hfront, stepsOf_append_slash]
        exact (List.append_nil _).symm
      · intro back
        rw [hfront]
        cases front <;> rfl
    · have hnot : ¬ (p.text.isEmpty = true ∨ p.endsInSlash = true) := by
        rintro (h | h)
        · exact hempty (String.isEmpty_iff.mp h)
        · exact hslash h
      refine ⟨p.text.toList, ?_, rfl, ?_⟩
      · rw [if_neg hnot, String.toList_append, String.toList_append, List.append_assoc]
        rfl
      · intro back
        have hne : p.text.toList ≠ [] := fun hnil => hempty (String.toList_inj.mp hnil)
        exact List.head?_append_of_ne_nil _ hne

theorem steps_child {p : Path} {name : String} (h : IsStep name) :
    (p.child name).steps = p.steps ++ [name] := by
  rcases toList_child (p := p) h with ⟨hempty, htext⟩ | ⟨front, htext, hsteps, _⟩
  · have hnone : p.steps = [] := by
      rw [steps_eq_stepsOf, hempty]
      rfl
    rw [steps_eq_stepsOf, htext, stepsOf_step h, hnone, List.nil_append]
  · rw [steps_eq_stepsOf, htext, stepsOf_append_slash, stepsOf_step h, hsteps]

theorem isAbsolute_child {p : Path} {name : String} (h : IsStep name) :
    (p.child name).isAbsolute = p.isAbsolute := by
  rcases toList_child (p := p) h with ⟨hempty, htext⟩ | ⟨front, htext, _, hhead⟩
  · have hp : p.isAbsolute = false := by
      rw [isAbsolute, hempty]
      rfl
    have hchild := isAbsolute_name h
    rw [isAbsolute] at hchild ⊢
    rw [htext, hp]
    exact hchild
  · rw [isAbsolute, htext, hhead, isAbsolute]

/-! ## Addresses -/

/-- Where the first step of a path is taken. -/
def start (home : Disk.Address) (p : Path) : Disk.Address :=
  if p.isAbsolute then [] else home

/-- Where a path leads, if it leads anywhere. -/
def address (home : Disk.Address) (p : Path) : Disk.Address :=
  p.steps.foldl Disk.onward (p.start home)

/-- The places that a path comes through, where it starts and where it leads
included. -/
def way (home : Disk.Address) (p : Path) : List Disk.Address :=
  p.steps.scanl Disk.onward (p.start home)

variable {home : Disk.Address}

theorem onward_name {name : String} (h : IsName name) (a : Disk.Address) :
    Disk.onward a name = a ++ [name] := by
  rw [Disk.onward, if_neg h.ne_dot, if_neg h.ne_dots]

/-- A name in a directory leads one step down from there. -/
theorem address_child {p : Path} {name : String} (h : IsName name) :
    (p.child name).address home = p.address home ++ [name] := by
  rw [address, steps_child h.toIsStep, List.foldl_append, start, isAbsolute_child h.toIsStep]
  exact onward_name h _

/-- Different names in one directory are different places. -/
theorem address_child_ne {p : Path} {name other : String} (h : IsName name) (h' : IsName other)
    (hne : name ≠ other) : (p.child name).address home ≠ (p.child other).address home := by
  rw [address_child h, address_child h']
  intro heq
  exact hne (List.singleton_inj.mp (List.append_cancel_left heq))

/-! ## Names without idle steps -/

/-- Steps from which those that stay where they are have been dropped. -/
structure Terse (isAbsolute : Bool) (steps : List String) : Prop where
  isStep : ∀ step ∈ steps, IsStep step
  head : isAbsolute = true → steps.head? ≠ some "."
  tail : ∀ step ∈ steps.tail, step ≠ "."

theorem names_of_steps_eq_nil {p : Path} (h : p.steps = []) : p.names = [] := by
  rw [names, h]

theorem names_of_steps_eq_cons {p : Path} {first : String} {rest : List String}
    (h : p.steps = first :: rest) :
    p.names = (if first = "." ∧ p.isAbsolute then [] else [first]) ++ rest.filter (· ≠ ".") := by
  rw [names, h]

theorem terse_names (p : Path) : Terse p.isAbsolute p.names := by
  cases hsteps : p.steps with
  | nil =>
      rw [names_of_steps_eq_nil hsteps]
      exact ⟨by simp, by simp, by simp⟩
  | cons first rest =>
      rw [names_of_steps_eq_cons hsteps]
      have hstep : ∀ step ∈ first :: rest, IsStep step :=
        fun step hmem => isStep_of_mem_steps (hsteps ▸ hmem)
      have hrest : ∀ step ∈ rest.filter (· ≠ "."), step ≠ "." :=
        fun step hmem => by simpa using List.of_mem_filter hmem
      by_cases hdrop : first = "." ∧ p.isAbsolute = true
      · rw [if_pos hdrop, List.nil_append]
        refine ⟨?_, ?_, ?_⟩
        · intro step hmem
          exact hstep step (List.mem_cons_of_mem _ (List.mem_of_mem_filter hmem))
        · intro _ hhead
          exact hrest "." (List.mem_of_mem_head? hhead) rfl
        · intro step hmem
          exact hrest step (List.mem_of_mem_tail hmem)
      · rw [if_neg hdrop, List.singleton_append]
        refine ⟨?_, ?_, ?_⟩
        · intro step hmem
          rcases List.mem_cons.mp hmem with rfl | hmem
          · exact hstep step List.mem_cons_self
          · exact hstep step (List.mem_cons_of_mem _ (List.mem_of_mem_filter hmem))
        · intro habsolute hhead
          exact hdrop ⟨Option.some.inj hhead, habsolute⟩
        · exact hrest

theorem foldl_onward_filter (steps : List String) (a : Disk.Address) :
    (steps.filter (· ≠ ".")).foldl Disk.onward a = steps.foldl Disk.onward a := by
  induction steps generalizing a with
  | nil => rfl
  | cons step rest ih =>
      by_cases h : step = "."
      · subst h
        rw [List.filter_cons_of_neg (by simp), List.foldl_cons, Disk.onward_dot]
        exact ih a
      · rw [List.filter_cons_of_pos (by simpa using h), List.foldl_cons, List.foldl_cons]
        exact ih _

/-- Idle steps do not matter for where a path leads. -/
theorem address_eq_foldl_names (p : Path) :
    p.address home = p.names.foldl Disk.onward (p.start home) := by
  rw [address]
  cases hsteps : p.steps with
  | nil =>
      rw [names_of_steps_eq_nil hsteps]
  | cons first rest =>
      rw [names_of_steps_eq_cons hsteps]
      by_cases hdrop : first = "." ∧ p.isAbsolute = true
      · rw [if_pos hdrop, List.nil_append, foldl_onward_filter, List.foldl_cons, hdrop.1,
          Disk.onward_dot]
      · rw [if_neg hdrop, List.singleton_append, List.foldl_cons, List.foldl_cons,
          foldl_onward_filter]

theorem names_child {p : Path} {name : String} (h : IsName name) :
    (p.child name).names = p.names ++ [name] := by
  have hchild := steps_child (p := p) h.toIsStep
  cases hsteps : p.steps with
  | nil =>
      rw [hsteps, List.nil_append] at hchild
      rw [names_of_steps_eq_nil hsteps, names_of_steps_eq_cons hchild]
      simp [h.ne_dot]
  | cons first rest =>
      rw [hsteps, List.cons_append] at hchild
      rw [names_of_steps_eq_cons hsteps, names_of_steps_eq_cons hchild,
        isAbsolute_child h.toIsStep, List.filter_append, List.append_assoc]
      simp [h.ne_dot]

theorem stepsOf_intercalate {steps : List String} (h : ∀ step ∈ steps, IsStep step) :
    stepsOf (['/'].intercalate (steps.map String.toList)) = steps := by
  induction steps with
  | nil => rfl
  | cons first rest ih =>
      have hfirst := stepsOf_step (h first List.mem_cons_self)
      have hrest := ih fun step hmem => h step (List.mem_cons_of_mem _ hmem)
      cases rest with
      | nil =>
          rw [List.map_singleton, List.intercalate_singleton]
          exact hfirst
      | cons second rest =>
          rw [List.map_cons, List.map_cons, List.intercalate_cons_cons, ← List.map_cons,
            List.append_assoc, List.singleton_append, stepsOf_append_slash, hfirst, hrest]
          rfl

theorem toList_ofSteps (isAbsolute : Bool) (steps : List String) :
    (ofSteps isAbsolute steps).text.toList =
      (if isAbsolute then ['/'] else []) ++ ['/'].intercalate (steps.map String.toList) := by
  rw [ofSteps, String.toList_append, String.toList_intercalate]
  cases isAbsolute <;> rfl

theorem steps_ofSteps {isAbsolute : Bool} {steps : List String}
    (h : ∀ step ∈ steps, IsStep step) : (ofSteps isAbsolute steps).steps = steps := by
  rw [steps_eq_stepsOf, toList_ofSteps]
  cases isAbsolute with
  | false => exact stepsOf_intercalate h
  | true =>
      have hslash := stepsOf_append_slash [] (['/'].intercalate (steps.map String.toList))
      rw [stepsOf_intercalate h] at hslash
      exact hslash

theorem isAbsolute_ofSteps {isAbsolute : Bool} {steps : List String}
    (h : ∀ step ∈ steps, IsStep step) : (ofSteps isAbsolute steps).isAbsolute = isAbsolute := by
  rw [Path.isAbsolute, toList_ofSteps]
  cases isAbsolute with
  | true => rfl
  | false =>
      rw [if_neg Bool.false_ne_true, List.nil_append]
      cases steps with
      | nil => rfl
      | cons first rest =>
          have hfirst := isAbsolute_name (h first List.mem_cons_self)
          rw [Path.isAbsolute] at hfirst
          cases rest with
          | nil =>
              rw [List.map_singleton, List.intercalate_singleton]
              exact hfirst
          | cons second rest =>
              rw [List.map_cons, List.map_cons, List.intercalate_cons_cons, List.append_assoc,
                List.head?_append_of_ne_nil]
              · exact hfirst
              · intro hnil
                exact (h first List.mem_cons_self).nonempty (String.toList_inj.mp hnil)

theorem address_ofSteps {isAbsolute : Bool} {steps : List String}
    (h : ∀ step ∈ steps, IsStep step) :
    (ofSteps isAbsolute steps).address home =
      steps.foldl Disk.onward (if isAbsolute then [] else home) := by
  rw [address, start, steps_ofSteps h, isAbsolute_ofSteps h]

theorem names_ofSteps {isAbsolute : Bool} {steps : List String} (h : Terse isAbsolute steps) :
    (ofSteps isAbsolute steps).names = steps := by
  have hsteps : (ofSteps isAbsolute steps).steps = steps := steps_ofSteps h.isStep
  cases steps with
  | nil => exact names_of_steps_eq_nil hsteps
  | cons first rest =>
      have hkept : ¬ (first = "." ∧ isAbsolute = true) := by
        rintro ⟨rfl, habsolute⟩
        exact h.head habsolute rfl
      have hrest : rest.filter (· ≠ ".") = rest := by
        rw [List.filter_eq_self]
        intro step hmem
        simpa using h.tail step hmem
      rw [names_of_steps_eq_cons hsteps, isAbsolute_ofSteps h.isStep, if_neg hkept, hrest]
      rfl

/-! ## Drafts -/

/-- The draft of a file stands beside it, with an ending of its own. -/
theorem stem_append {base ending : List Char} (hbase : base ≠ []) (hending : '.' ∉ ending) :
    stem (base ++ '.' :: ending) = base := by
  have hdrop : (base ++ '.' :: ending).reverse.dropWhile (· ≠ '.') = '.' :: base.reverse := by
    rw [List.reverse_append, List.reverse_cons, List.append_assoc, List.singleton_append,
      List.dropWhile_append_of_pos]
    · rfl
    · intro c hc
      have hne : c ≠ '.' := by
        rintro rfl
        exact hending (List.mem_reverse.mp hc)
      simpa using hne
  rw [stem, hdrop]
  simp [hbase]

theorem address_draft {p : Path} {base ending : String} (hname : IsName (base ++ "." ++ ending))
    (hdraft : IsName (base ++ ".tmp")) (hbase : base ≠ "") (hending : '.' ∉ ending.toList) :
    (p.child (base ++ "." ++ ending)).draft.address home =
      (p.child (base ++ ".tmp")).address home := by
  have hstem : String.ofList (stem (base ++ "." ++ ending).toList) = base := by
    have htext : (base ++ "." ++ ending).toList = base.toList ++ '.' :: ending.toList := by
      rw [String.toList_append, String.toList_append, List.append_assoc]
      rfl
    rw [htext, stem_append, String.ofList_toList]
    · intro hnil
      exact hbase (String.toList_inj.mp hnil)
    · exact hending
  have hsteps : ∀ step ∈ p.names ++ [base ++ ".tmp"], IsStep step := by
    intro step hmem
    rcases List.mem_append.mp hmem with hmem | hmem
    · exact p.terse_names.isStep step hmem
    · exact List.mem_singleton.mp hmem ▸ hdraft.toIsStep
  have htext : (p.child (base ++ "." ++ ending)).draft =
      ofSteps p.isAbsolute (p.names ++ [base ++ ".tmp"]) := by
    rw [draft, names_child hname, List.getLast?_concat]
    show (if _ then _ else _) = _
    rw [if_neg (not_or.mpr ⟨hname.ne_dot, hname.ne_dots⟩), isAbsolute_child hname.toIsStep,
      List.dropLast_concat, hstem]
  rw [htext, address_ofSteps hsteps, List.foldl_append, address_child hdraft,
    address_eq_foldl_names]
  exact onward_name hdraft _

/-! ## Names around a part -/

theorem head?_around {head part tail : String} {c : Char} (h : head.toList.head? = some c) :
    (head ++ part ++ tail).toList.head? = some c := by
  obtain ⟨rest, hrest⟩ := List.head?_eq_some_iff.mp h
  rw [String.toList_append, String.toList_append, hrest]
  rfl

/-- Text around a plain part makes a name unless it starts with a dot. -/
theorem isName_around {head part tail : String} {c : Char} (h : head.toList.head? = some c)
    (hdot : c ≠ '.') (hslash : '/' ∉ head.toList) (hpart : '/' ∉ part.toList)
    (htail : '/' ∉ tail.toList) : IsName (head ++ part ++ tail) := by
  have hne : ∀ other : String, other.toList.head? ≠ some c → head ++ part ++ tail ≠ other := by
    rintro other hother rfl
    exact hother (head?_around h)
  refine ⟨⟨hne _ (by simp), ?_⟩, hne _ ?_, hne _ ?_⟩
  · rw [String.toList_append, String.toList_append]
    simp [hslash, hpart, htail]
  · simpa using Ne.symm hdot
  · simpa using Ne.symm hdot

/-- A file named around a plain part has its draft beside it. -/
theorem address_draft_around {p : Path} {head part : String} {c : Char}
    (ending : String) (h : head.toList.head? = some c) (hdot : c ≠ '.') (hslash : '/' ∉ head.toList)
    (hpart : '/' ∉ part.toList) (hending : '/' ∉ ending.toList) (hdots : '.' ∉ ending.toList) :
    (p.child (head ++ part ++ ("." ++ ending))).draft.address home =
      (p.child (head ++ part ++ ".tmp")).address home := by
  have htail : '/' ∉ ("." ++ ending).toList := by
    rw [String.toList_append]
    simp [hending]
  have hname := isName_around h hdot hslash hpart htail
  have hbase : head ++ part ≠ "" := by
    intro hempty
    have hcons : (head ++ part ++ "").toList.head? = some c := head?_around h
    rw [hempty] at hcons
    cases hcons
  rw [← String.append_assoc] at hname ⊢
  exact address_draft hname (isName_around h hdot hslash hpart (by decide)) hbase hdots

theorem ne_of_head?_ne {name other : String} {c c' : Char} (h : name.toList.head? = some c)
    (h' : other.toList.head? = some c') (hne : c ≠ c') : name ≠ other := by
  rintro rfl
  rw [h] at h'
  exact hne (Option.some.inj h')

/-! ## Directories -/

/-- The directories that are made for a name in a directory are that directory
and those above it. -/
theorem map_address_ancestors {p parent : Path} {name : String} (h : IsName name)
    (hparent : (p.child name).parent? = some parent) :
    parent.ancestors.map (·.address home) = p.ancestors.map (·.address home) := by
  have hnames : p.names ++ [name] ≠ [] := by simp
  rw [parent?, names_child h, isAbsolute_child h.toIsStep, List.dropLast_concat,
    if_neg (by simp)] at hparent
  obtain rfl := Option.some.inj hparent
  have hterse := p.terse_names
  have hself : (ofSteps p.isAbsolute p.names).address home = p.address home := by
    rw [address_ofSteps hterse.isStep, address_eq_foldl_names, start]
  rw [ancestors, ancestors, names_ofSteps hterse, isAbsolute_ofSteps hterse.isStep, List.map_cons,
    List.map_cons, hself]

end Path

end CallAtlas
