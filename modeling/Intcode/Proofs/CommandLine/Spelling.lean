import Intcode.Proofs.CommandLine.Scanning

/-!
# Spellings of a list of values

An option of `Args` with a list of values can be spelled in many ways: the values cut into groups,
and each group attached to an occurrence of its own (`--input=1,-2 --input=3`), or the option once
and each value as an argument of its own (`-i 1 -2 3`). The occurrences may stand among other
arguments. There is one thing they must not do, and that is to end a list of values that goes on
behind them: in `--phases 1 --input=5 2` the last argument is a name, in `--phases 1 2 -i 5` it is a
value. `Fits` says that none does.

The proof compares two scans, one of the arguments with the occurrences and one of the others
alone. They stay `Abreast` to the end: the first has the values in addition, and expects the same,
or anything where the second would still take values but meets an option next.

Results:
* `given?_attached`, `given?_separate`: what the two spellings add to the other arguments.
* `asksForHelp_attached`, `asksForHelp_separate`: they do not ask for help and do not keep from it.
* **`spellings_agree`**: all spellings make the same request, and have the same reply.
-/

namespace Intcode.CommandLine

/-! ## Occurrences among other arguments -/

/-- An occurrence of an option with a group of values attached to it, and the arguments from there
up to the next one. -/
structure Occurrence where
  lead : String
  group : List Word
  rest : List String
deriving DecidableEq

/-- The occurrence as it is written, and what follows it. -/
def Occurrence.arguments (occurrence : Occurrence) : List String :=
  (occurrence.lead ++ Program.wordsText occurrence.group) :: occurrence.rest

/-- After the arguments, neither a value nor anything else in particular is expected. -/
def Settled (arguments : List String) : Prop :=
  ∀ scan ∈ arguments.foldlM Scan.next? {}, scan.expecting = .anything

/-- There are no arguments, or the first looks like an option. -/
def Opens (arguments : List String) : Prop := ∀ argument ∈ arguments.head?, looksLikeOption argument

/-- **The occurrences can be left out of the arguments.** Each has at least one value; those between
them are others; and none of them parts a list of values, or an option and its value, that `before`
and the other arguments would make without it. -/
def Fits (option : ListOption) : List String → List Occurrence → Prop
  | _, [] => True
  | before, occurrence :: more =>
    occurrence.lead ∈ option.leads ∧ occurrence.group ≠ [] ∧
    (∀ argument ∈ occurrence.rest, ¬ option.Occurs argument ∧ argument ≠ "--") ∧
    (Settled before ∨ Opens (occurrence.rest ++ more.flatMap (·.rest))) ∧
    Fits option (before ++ occurrence.rest) more

section
variable {option : ListOption} {before : List String} {occurrences : List Occurrence}

/-- Occurrences at the end of the arguments fit, whatever stands before. -/
theorem fits_of_rest_eq_nil
    (h : ∀ occurrence ∈ occurrences, occurrence.lead ∈ option.leads ∧ occurrence.group ≠ [] ∧
      occurrence.rest = []) :
    Fits option before occurrences := by
  induction occurrences with
  | nil => trivial
  | cons occurrence more ih =>
    obtain ⟨⟨hlead, hgroup, hrest⟩, hmore⟩ := List.forall_mem_cons.mp h
    have hnil : more.flatMap (·.rest) = [] :=
      List.flatMap_eq_nil_iff.mpr fun occurrence hmem => (hmore occurrence hmem).2.2
    refine ⟨hlead, hgroup, by simp [hrest], .inr ?_, ?_⟩
    · simp [hrest, hnil, Opens]
    · rw [hrest, List.append_nil]
      exact ih hmore

theorem Fits.rest (h : Fits option before occurrences) :
    ∀ argument ∈ occurrences.flatMap (·.rest), ¬ option.Occurs argument ∧ argument ≠ "--" := by
  induction occurrences generalizing before with
  | nil => simp
  | cons occurrence more ih =>
    obtain ⟨-, -, hrest, -, hmore⟩ := h
    rw [List.flatMap_cons]
    exact List.forall_mem_append.mpr ⟨hrest, ih hmore⟩

theorem Fits.group_ne_nil (h : Fits option before occurrences) (hne : occurrences ≠ []) :
    occurrences.flatMap (·.group) ≠ [] := by
  obtain ⟨occurrence, more, rfl⟩ := List.exists_cons_of_ne_nil hne
  rw [List.flatMap_cons]
  exact List.append_ne_nil_of_left_ne_nil h.2.1 _

end

/-! ## Whole lists of arguments -/

/-- The options of a scan at the end of the arguments, if no value is owed. -/
def Scan.close? (scan : Scan) : Option Options :=
  if scan.expecting.isOwed then none else some scan.options

/-- What the arguments give, before it is asked whether it goes together. -/
def Options.given? (arguments : List String) : Option Options :=
  (arguments.foldlM Scan.next? {}).bind Scan.close?

theorem Options.ofArguments?_eq (arguments : List String) :
    ofArguments? arguments = (given? arguments).filter areConsistent := by
  unfold ofArguments? given?
  cases arguments.foldlM Scan.next? {} with
  | none => rfl
  | some scan =>
    change (if _ then none else some scan.options) = (Scan.close? scan).filter _
    unfold Scan.close?
    cases scan.expecting.isOwed with
    | true => rfl
    | false =>
      cases hconsistent : scan.options.areConsistent <;> simp [Option.filter, hconsistent]

theorem expecting_foldlM {scan after : Scan} (hnames : scan.expecting ≠ .names)
    {arguments : List String} (hdashes : "--" ∉ arguments)
    (h : arguments.foldlM Scan.next? scan = some after) : after.expecting ≠ .names := by
  induction arguments generalizing scan with
  | nil =>
    cases h
    exact hnames
  | cons argument arguments ih =>
    rw [List.foldlM_cons, Option.bind_eq_bind, Option.bind_eq_some_iff] at h
    obtain ⟨middle, hmiddle, h⟩ := h
    rw [List.mem_cons, not_or] at hdashes
    exact ih (Scan.expecting_next? hnames (Ne.symm hdashes.1) hmiddle) hdashes.2 h

/-- **What the option and its values, each an argument of its own, add at the end.** -/
theorem given?_separate {option : ListOption} {others : List String} (hdashes : "--" ∉ others)
    {flag : String} (hflag : flag ∈ option.flags) {values : List Word} (hvalues : values ≠ []) :
    Options.given? (others ++ flag :: values.map Word.text) =
      (Options.given? others).map (·.append option values) := by
  unfold Options.given?
  rw [List.foldlM_append]
  cases hscan : others.foldlM Scan.next? {} with
  | none => rfl
  | some scan =>
    have hnames := expecting_foldlM Expecting.noConfusion hdashes hscan
    change (List.foldlM Scan.next? scan (flag :: values.map Word.text)).bind _ =
      scan.close?.map _
    rw [List.foldlM_cons, Scan.next?_flag hnames hflag, Scan.close?]
    split
    · rfl
    · change ((values.map Word.text).foldlM Scan.next? _).bind _ = _
      rw [Scan.foldlM_texts]
      simp [Scan.close?, Expecting.isOwed, hvalues]

section
variable {option : ListOption} {values : List Word} {others : List String} {bare full : Scan}

/-- **The scan of all arguments beside that of the others.** It has the values in addition, and it
expects the same; or anything, where the other scan could do with more values, but is going to get
none, since an option is next. -/
structure Abreast (option : ListOption) (values : List Word) (others : List String)
    (bare full : Scan) : Prop where
  options_eq : full.options = bare.options.append option values
  ne_names : bare.expecting ≠ .names
  expecting : full.expecting = bare.expecting ∨
    full.expecting = .anything ∧ bare.expecting.isOwed = false ∧ Opens others

/-- Beside it, and with no value of the option ahead. -/
structure Related (option : ListOption) (values : List Word) (others : List String)
    (bare full : Scan) : Prop extends Abreast option values others bare full where
  spares : full.expecting.Spares option

/-- **One step**: another argument keeps the scans related. -/
theorem Related.next? {argument : String}
    (h : Related option values (argument :: others) bare full)
    (hoccurs : ¬ option.Occurs argument) (hdashes : argument ≠ "--") (others' : List String) :
    Option.Rel (Related option values others') (bare.next? argument) (full.next? argument) := by
  have hstep : Ignores option fun options => Scan.next? ⟨options, full.expecting⟩ argument :=
    .next? h.spares hoccurs hdashes
  have hbare : bare.next? argument = Scan.next? ⟨bare.options, full.expecting⟩ argument := by
    rcases h.expecting with heq | ⟨heq, howed, hopens⟩
    · rw [heq]
    · rw [Scan.next?_of_looksLikeOption (hopens argument rfl) h.ne_names, howed, heq]
      rfl
  have hfull : full.next? argument = (bare.next? argument).map (·.gain option values) := by
    rw [hbare, ← hstep.gain, ← h.options_eq]
  rw [hfull]
  cases hnext : bare.next? argument with
  | none => exact .none
  | some after =>
    have hspares := hstep.spares _ after (hbare ▸ hnext)
    exact .some ⟨⟨rfl, hspares.ne_names, .inl rfl⟩, hspares⟩

/-- **Any number of steps.** -/
theorem Related.foldlM {rest : List String} (h : Related option values (rest ++ others) bare full)
    (hrest : ∀ argument ∈ rest, ¬ option.Occurs argument ∧ argument ≠ "--") :
    Option.Rel (Related option values others) (rest.foldlM Scan.next? bare)
      (rest.foldlM Scan.next? full) := by
  induction rest generalizing bare full with
  | nil => exact .some h
  | cons argument rest ih =>
    obtain ⟨⟨hoccurs, hdashes⟩, hrest⟩ := List.forall_mem_cons.mp hrest
    rw [List.foldlM_cons, List.foldlM_cons]
    have hnext := h.next? hoccurs hdashes (rest ++ others)
    generalize bare.next? argument = bare', full.next? argument = full' at hnext
    cases hnext with
    | none => exact .none
    | some h => exact ih h hrest

theorem Abreast.isOwed_eq (h : Abreast option values others bare full) :
    full.expecting.isOwed = bare.expecting.isOwed := by
  rcases h.expecting with heq | ⟨heq, howed, -⟩
  · rw [heq]
  · rw [heq, howed]
    rfl

/-- At the end, the scans give the same but for the values. -/
theorem Abreast.close?_eq (h : Abreast option values others bare full) :
    full.close? = bare.close?.map (·.append option values) := by
  rw [Scan.close?, Scan.close?, h.isOwed_eq, h.options_eq]
  split <;> rfl

/-- A value that is owed where an option is next, or nothing, never comes. -/
theorem close?_foldlM_of_isOwed (hnames : bare.expecting ≠ .names)
    (howed : bare.expecting.isOwed = true) (hopens : Opens others) :
    (others.foldlM Scan.next? bare).bind Scan.close? = none := by
  cases others with
  | nil =>
    change bare.close? = none
    rw [Scan.close?, howed]
    rfl
  | cons argument others =>
    rw [List.foldlM_cons, Scan.next?_of_looksLikeOption (hopens argument rfl) hnames, howed]
    rfl

/-- Neither is help given then. -/
theorem meetsHelp_of_isOwed (hnames : bare.expecting ≠ .names)
    (howed : bare.expecting.isOwed = true) (hopens : Opens others) :
    bare.meetsHelp others = false := by
  cases others with
  | nil => rfl
  | cons argument others =>
    rw [Scan.meetsHelp, Scan.next?_of_looksLikeOption (hopens argument rfl) hnames, howed]
    simp

/-- **An occurrence relates the scans**, with its group among the values, or a value is owed that
never comes. -/
theorem Abreast.occurrence (h : Abreast option values others bare full) {lead : String}
    (hlead : lead ∈ option.leads) {group : List Word} (hgroup : group ≠ [])
    (hplace : bare.expecting = .anything ∨ Opens others) :
    (∃ after, full.next? (lead ++ Program.wordsText group) = some after ∧
      Related option (values ++ group) others bare after) ∨
    full.next? (lead ++ Program.wordsText group) = none ∧
      bare.expecting.isOwed = true ∧ Opens others := by
  have hnames : full.expecting ≠ .names := by
    rcases h.expecting with heq | ⟨heq, -⟩
    · exact heq ▸ h.ne_names
    · exact heq ▸ nofun
  rw [Scan.next?_occurrence hnames hlead hgroup]
  cases howed : full.expecting.isOwed with
  | false =>
    refine .inl ⟨_, rfl, ⟨?_, h.ne_names, ?_⟩, trivial⟩
    · rw [h.options_eq, Options.append_append]
    · rcases hplace with hanything | hopens
      · exact .inl hanything.symm
      · refine .inr ⟨rfl, ?_, hopens⟩
        rcases h.expecting with heq | ⟨-, howed, -⟩
        · exact heq ▸ howed
        · exact howed
  | true =>
    have heq : full.expecting = bare.expecting := by
      refine h.expecting.resolve_right fun hanything => ?_
      rw [hanything.1] at howed
      cases howed
    rw [heq] at howed
    have hopens : Opens others := by
      refine hplace.resolve_left fun hanything => ?_
      rw [hanything] at howed
      cases howed
    exact .inr ⟨rfl, howed, hopens⟩

/-- **Occurrences add their groups**, whatever arguments stand between them. -/
theorem Abreast.attached {before : List String} {occurrences : List Occurrence}
    (h : Abreast option values (occurrences.flatMap (·.rest)) bare full)
    (hbefore : before.foldlM Scan.next? {} = some bare) (hfits : Fits option before occurrences) :
    ((occurrences.flatMap Occurrence.arguments).foldlM Scan.next? full).bind Scan.close? =
      (((occurrences.flatMap (·.rest)).foldlM Scan.next? bare).bind Scan.close?).map
        (·.append option (values ++ occurrences.flatMap (·.group))) := by
  induction occurrences generalizing before values bare full with
  | nil =>
    have hclose := h.close?_eq
    rw [← List.append_nil values] at hclose
    exact hclose
  | cons occurrence more ih =>
    obtain ⟨hlead, hgroup, hrest, hplace, hmore⟩ := hfits
    simp only [List.flatMap_cons, Occurrence.arguments, List.cons_append, List.foldlM_cons] at h ⊢
    have hplace := hplace.imp_left fun hsettled => hsettled bare hbefore
    rcases h.occurrence hlead hgroup hplace with
      ⟨after, hafter, hrelated⟩ | ⟨hnone, howed, hopens⟩
    · rw [hafter, ← List.append_assoc values, Option.bind_eq_bind, Option.bind_some,
        List.foldlM_append, List.foldlM_append]
      have hrun := hrelated.foldlM hrest
      generalize hbare : occurrence.rest.foldlM Scan.next? bare = bare' at hrun ⊢
      generalize occurrence.rest.foldlM Scan.next? after = full' at hrun ⊢
      cases hrun with
      | none => rfl
      | some hrelated =>
        refine ih hrelated.toAbreast ?_ hmore
        rw [List.foldlM_append, hbefore]
        exact hbare
    · rw [hnone, close?_foldlM_of_isOwed h.ne_names howed hopens]
      rfl

/-- **What the occurrences add to the other arguments.** -/
theorem given?_attached {before : List String} (hdashes : "--" ∉ before)
    {occurrences : List Occurrence} (hfits : Fits option before occurrences) :
    Options.given? (before ++ occurrences.flatMap Occurrence.arguments) =
      (Options.given? (before ++ occurrences.flatMap (·.rest))).map
        (·.append option (occurrences.flatMap (·.group))) := by
  unfold Options.given?
  rw [List.foldlM_append, List.foldlM_append]
  cases hscan : before.foldlM Scan.next? {} with
  | none => rfl
  | some scan =>
    have hnames := expecting_foldlM Expecting.noConfusion hdashes hscan
    have habreast : Abreast option [] (occurrences.flatMap (·.rest)) scan scan :=
      ⟨(scan.options.append_nil option).symm, hnames, .inl rfl⟩
    exact habreast.attached hscan hfits

/-! ### Help -/

/-- An occurrence does not ask for help. -/
theorem isHelp_occurrence {lead : String} (hlead : lead ∈ option.leads) (group : List Word) :
    isHelp (lead ++ Program.wordsText group) = false := by
  have hcs : (lead ++ Program.wordsText group).toList =
      lead.toList ++ (Program.wordsText group).toList := String.toList_append
  rw [isHelp, hcs]
  cases option with
  | input =>
    simp only [ListOption.leads, List.mem_cons, List.not_mem_nil, or_false] at hlead
    rcases hlead with rfl | rfl | rfl <;> rfl
  | phases =>
    obtain rfl : lead = "--phases=" := by simpa [ListOption.leads] using hlead
    rfl

/-- Among other arguments, scans that are related meet the same help. -/
theorem Related.meetsHelp_eq {rest : List String}
    (h : Related option values (rest ++ others) bare full)
    (hrest : ∀ argument ∈ rest, ¬ option.Occurs argument ∧ argument ≠ "--") :
    full.meetsHelp rest = bare.meetsHelp rest := by
  induction rest generalizing bare full with
  | nil => rfl
  | cons argument rest ih =>
    obtain ⟨⟨hoccurs, hdashes⟩, hrest⟩ := List.forall_mem_cons.mp hrest
    have hnext := h.next? hoccurs hdashes (rest ++ others)
    rw [Scan.meetsHelp, Scan.meetsHelp, h.isOwed_eq]
    simp only [ne_eq, h.spares.ne_names, h.ne_names, not_false_eq_true, decide_true]
    congr 1
    generalize bare.next? argument = bare', full.next? argument = full' at hnext
    cases hnext with
    | none => rfl
    | some h => exact ih h hrest

/-- **Occurrences neither hide help nor bring it**, whatever arguments stand between them. -/
theorem Abreast.meetsHelp_attached {before : List String} {occurrences : List Occurrence}
    (h : Abreast option values (occurrences.flatMap (·.rest)) bare full)
    (hbefore : before.foldlM Scan.next? {} = some bare) (hfits : Fits option before occurrences) :
    full.meetsHelp (occurrences.flatMap Occurrence.arguments) =
      bare.meetsHelp (occurrences.flatMap (·.rest)) := by
  induction occurrences generalizing before values bare full with
  | nil => rfl
  | cons occurrence more ih =>
    obtain ⟨hlead, hgroup, hrest, hplace, hmore⟩ := hfits
    simp only [List.flatMap_cons, Occurrence.arguments, List.cons_append] at h ⊢
    have hplace := hplace.imp_left fun hsettled => hsettled bare hbefore
    rw [Scan.meetsHelp, isHelp_occurrence hlead, Bool.false_and, Bool.false_and, Bool.false_or]
    rcases h.occurrence hlead hgroup hplace with
      ⟨after, hafter, hrelated⟩ | ⟨hnone, howed, hopens⟩
    · rw [hafter, Option.any_some, Scan.meetsHelp_append, Scan.meetsHelp_append,
        hrelated.meetsHelp_eq hrest]
      congr 1
      have hrun := hrelated.foldlM hrest
      generalize hbare : occurrence.rest.foldlM Scan.next? bare = bare' at hrun ⊢
      generalize occurrence.rest.foldlM Scan.next? after = full' at hrun ⊢
      cases hrun with
      | none => rfl
      | some hrelated =>
        refine ih hrelated.toAbreast ?_ hmore
        rw [List.foldlM_append, hbefore]
        exact hbare
    · rw [hnone, meetsHelp_of_isOwed h.ne_names howed hopens]
      rfl

theorem asksForHelp_attached {before : List String} (hdashes : "--" ∉ before)
    {occurrences : List Occurrence} (hfits : Fits option before occurrences) :
    asksForHelp (before ++ occurrences.flatMap Occurrence.arguments) =
      asksForHelp (before ++ occurrences.flatMap (·.rest)) := by
  rw [asksForHelp, asksForHelp, Scan.meetsHelp_append, Scan.meetsHelp_append]
  congr 1
  cases hscan : before.foldlM Scan.next? {} with
  | none => rfl
  | some scan =>
    have hnames := expecting_foldlM Expecting.noConfusion hdashes hscan
    have habreast : Abreast option [] (occurrences.flatMap (·.rest)) scan scan :=
      ⟨(scan.options.append_nil option).symm, hnames, .inl rfl⟩
    exact habreast.meetsHelp_attached hscan hfits

theorem asksForHelp_separate {flag : String} (hflag : flag ∈ option.flags) (others : List String)
    (values : List Word) :
    asksForHelp (others ++ flag :: values.map Word.text) = asksForHelp others := by
  have hnone : ∀ argument ∈ flag :: values.map Word.text, isHelp argument = false := by
    refine List.forall_mem_cons.mpr ⟨?_, fun argument hmem => ?_⟩
    · cases option with
      | input => revert flag; decide
      | phases => revert flag; decide
    · obtain ⟨word, -, rfl⟩ := List.mem_map.mp hmem
      exact Scan.isHelp_text word
  rw [asksForHelp, asksForHelp, Scan.meetsHelp_append]
  cases others.foldlM Scan.next? {} with
  | none => exact Bool.or_false _
  | some scan => rw [Option.any_some, Scan.meetsHelp_eq_false hnone, Bool.or_false]

/-! ### The values of the option -/

/-- Other arguments give the option no values. -/
theorem values_foldlM {scan after : Scan} (hspares : scan.expecting.Spares option)
    (hothers : ∀ argument ∈ others, ¬ option.Occurs argument ∧ argument ≠ "--")
    (h : others.foldlM Scan.next? scan = some after) :
    after.options.values option = scan.options.values option := by
  induction others generalizing scan with
  | nil =>
    cases h
    rfl
  | cons argument others ih =>
    obtain ⟨⟨hoccurs, hdashes⟩, hothers⟩ := List.forall_mem_cons.mp hothers
    rw [List.foldlM_cons, Option.bind_eq_bind, Option.bind_eq_some_iff] at h
    obtain ⟨middle, hmiddle, h⟩ := h
    have hstep := Ignores.next? hspares hoccurs hdashes
    rw [ih (hstep.spares _ middle hmiddle) hothers h]
    exact hstep.values _ middle hmiddle

theorem values_of_given? {options : Options}
    (hothers : ∀ argument ∈ others, ¬ option.Occurs argument ∧ argument ≠ "--")
    (h : Options.given? others = some options) : options.values option = [] := by
  obtain ⟨scan, hscan, hclose⟩ := Option.bind_eq_some_iff.mp h
  have hstart : ({} : Scan).expecting.Spares option := trivial
  obtain ⟨-, hoptions⟩ := Option.ite_none_left_eq_some.mp hclose
  rw [← Option.some.inj hoptions, values_foldlM hstart hothers hscan]
  cases option <;> rfl

end

/-! ## Main result -/

/-- **All spellings of a list of values mean the same.** The values of an option may be cut into
groups in any way and given as occurrences of the option with a group attached to each, at the end
of the arguments or among them; or they may follow the option at the end, each as an argument of its
own. Both add exactly these values, in their order, to what the other arguments give, and fail
together if the other arguments fail or the whole does not go together. So the values are the list
itself where the option has no other occurrence, and every response is the same, whatever the
sources hold. (Two dashes are not among the arguments: behind them there are only names.) -/
theorem spellings_agree (option : ListOption) {before : List String}
    {occurrences : List Occurrence} {flag : String} (hdashes : "--" ∉ before)
    (hne : occurrences ≠ []) (hfits : Fits option before occurrences)
    (hflag : flag ∈ option.flags) :
    let attached := before ++ occurrences.flatMap Occurrence.arguments
    let others := before ++ occurrences.flatMap (·.rest)
    let values := occurrences.flatMap (·.group)
    let separate := others ++ flag :: values.map Word.text
    Options.ofArguments? attached =
      ((Options.given? others).map (·.append option values)).filter Options.areConsistent ∧
    Options.ofArguments? separate = Options.ofArguments? attached ∧
    ((∀ argument ∈ before, ¬ option.Occurs argument) →
      ∀ options ∈ Options.ofArguments? attached, options.values option = values) ∧
    ∀ (logger : Logger) (fuel : Nat) (read : Source → Except SourceError String),
      let answer (request : Request) := respond logger fuel request (read request.source)
      (Request.ofArguments? separate).map answer = (Request.ofArguments? attached).map answer ∧
      reply logger fuel read separate = reply logger fuel read attached := by
  intro attached others values separate
  have hothers : "--" ∉ others := by
    rw [List.mem_append, not_or]
    exact ⟨hdashes, fun hmem => (hfits.rest "--" hmem).2 rfl⟩
  have hattached : Options.ofArguments? attached =
      ((Options.given? others).map (·.append option values)).filter Options.areConsistent := by
    rw [Options.ofArguments?_eq, given?_attached hdashes hfits]
  have hseparate : Options.ofArguments? separate = Options.ofArguments? attached := by
    rw [hattached, Options.ofArguments?_eq, given?_separate hothers hflag (hfits.group_ne_nil hne)]
  refine ⟨hattached, hseparate, fun hbefore options hoptions => ?_, fun logger fuel read => ?_⟩
  · rw [hattached] at hoptions
    obtain ⟨hadded, -⟩ := Option.filter_eq_some_iff.mp hoptions
    obtain ⟨given, hgiven, rfl⟩ := Option.map_eq_some_iff.mp hadded
    have hnone : ∀ argument ∈ others, ¬ option.Occurs argument ∧ argument ≠ "--" :=
      List.forall_mem_append.mpr
        ⟨fun argument hmem => ⟨hbefore argument hmem, ne_of_mem_of_not_mem hmem hdashes⟩,
          hfits.rest⟩
    rw [Options.values_append, values_of_given? hnone hgiven, List.nil_append]
  · have hrequest : Request.ofArguments? separate = Request.ofArguments? attached := by
      rw [Request.ofArguments?, Request.ofArguments?, hseparate]
    have hhelp : asksForHelp separate = asksForHelp attached := by
      rw [asksForHelp_separate hflag, asksForHelp_attached hdashes hfits]
    refine ⟨by rw [hrequest], ?_⟩
    rw [reply, reply, hrequest, Response.refusal, Response.refusal, hhelp]

/-- Negative values: in two groups with another option between them, and at the end, where they stop
a list of values. -/
theorem spellings_agree_negative :
    Options.ofArguments? ["day7.ic", "--json", "-i", "-7", "8", "-9"] =
      Options.ofArguments? ["day7.ic", "--input=-7,8", "--json", "-i-9"] ∧
    Options.ofArguments? ["-i", "4", "-2", "--phases", "-1", "0", "3"] =
      Options.ofArguments? ["-i", "4", "-2", "--phases=-1", "--phases=0,3"] := by
  have hamong : Fits .input ["day7.ic"]
      [⟨"--input=", [⟨-7, by decide, by decide⟩, 8], ["--json"]⟩,
        ⟨"-i", [⟨-9, by decide, by decide⟩], []⟩] := by
    refine ⟨by decide, by decide, by decide, .inl ?_, by decide, by decide, by decide, .inr ?_,
      trivial⟩
    · intro scan hscan
      have hname : ["day7.ic"].foldlM Scan.next? {} =
          some ⟨{ name := some "day7.ic" }, .anything⟩ := by decide
      cases hname.symm.trans hscan
      rfl
    · exact fun _ h => (nomatch h)
  have hend : Fits .phases ["-i", "4", "-2"]
      [⟨"--phases=", [⟨-1, by decide, by decide⟩], []⟩, ⟨"--phases=", [0, 3], []⟩] :=
    fits_of_rest_eq_nil (by decide)
  have hinput : "-i" ∈ ListOption.input.flags := by decide
  have hphases : "--phases" ∈ ListOption.phases.flags := by decide
  exact ⟨(spellings_agree .input (by decide) (by decide) hamong hinput).2.1,
    (spellings_agree .phases (by decide) (by decide) hend hphases).2.1⟩

end Intcode.CommandLine
