import Intcode.CommandLine
import Intcode.Proofs.Program.RoundTrip

/-!
# One argument at a time

What a single argument does to a scan of `Args`. An argument has one of four shapes, and each has a
lemma that says what comes of it. The rest is about an option with a list of values: which arguments
are its occurrences, what those do, and that all others leave it alone, whatever values it has.

Results:
* `next?_of_looksLikeOption`: what looks like an option ends a list of values.
* `Ignores.next?`: an argument that is no occurrence of an option ignores its values.
* `next?_occurrence`: an occurrence adds the group that is attached to it.
* `foldlM_texts`: arguments that are words add the words, also the negative ones.
* `ofArguments?_of_asksForHelp`: arguments that ask for help make no request.
-/

namespace Intcode.CommandLine

/-! ## Occurrences of an option -/

namespace ListOption

/-- The arguments after which values follow as arguments of their own. -/
def flags : ListOption → List String
  | input => ["-i", "--input"]
  | phases => ["--phases"]

/-- What stands in front of values that are attached to the option. -/
def leads : ListOption → List String
  | input => ["-i", "-i=", "--input="]
  | phases => ["--phases="]

/-- The name of the option behind two dashes. -/
def name : ListOption → String
  | input => "input"
  | phases => "phases"

/-- Is the argument an occurrence of the option, with values attached or without? -/
def Occurs (option : ListOption) (argument : String) : Prop :=
  argument ∈ option.flags ∨ ∃ lead ∈ option.leads, lead.toList <+: argument.toList

instance (option : ListOption) (argument : String) : Decidable (option.Occurs argument) :=
  inferInstanceAs (Decidable (_ ∨ _))

end ListOption

/-- Does an argument end a list of values? A negative number does not. -/
def looksLikeOption (argument : String) : Bool :=
  match argument.toList with
  | '-' :: c :: rest => !(c :: rest).all Char.isDigit
  | _ => false

/-! ## Values of an option -/

/-- The values that an option has been given. -/
def Options.values (options : Options) : ListOption → List Word
  | .input => options.input
  | .phases => options.phases

/-- The scan with more values for an option. -/
def Scan.gain (scan : Scan) (option : ListOption) (values : List Word) : Scan :=
  { scan with options := scan.options.append option values }

namespace Options

variable (options : Options) (option : ListOption)

theorem append_nil : options.append option [] = options := by
  cases option <;> simp [append]

theorem append_append (v w : List Word) :
    (options.append option v).append option w = options.append option (v ++ w) := by
  cases option <;> simp [append]

theorem append_comm {other : ListOption} (h : other ≠ option) (v w : List Word) :
    (options.append option v).append other w = (options.append other w).append option v := by
  cases option <;> cases other <;> first | rfl | exact absurd rfl h

theorem values_append (v : List Word) :
    (options.append option v).values option = options.values option ++ v := by
  cases option <;> rfl

theorem values_append_of_ne {other : ListOption} (h : other ≠ option) (v : List Word) :
    (options.append other v).values option = options.values option := by
  cases option <;> cases other <;> first | rfl | exact absurd rfl h

/-- **A text of words gives the words.** -/
theorem addValue?_wordsText {words : List Word} (h : words ≠ []) :
    options.addValue? option (Program.wordsText words).toList =
      some (options.append option words) := by
  rw [addValue?, ← Text.cuts_iff.mp (Program.cuts_wordsText h), Word.mapM_ofChars?_text]
  rfl

theorem addValue?_text (word : Word) :
    options.addValue? option word.text.toList = some (options.append option [word]) := by
  simpa [Program.wordsText] using
    addValue?_wordsText options option (List.cons_ne_nil word [])

end Options

/-! ## Shapes of arguments -/

/-- What an argument looks like. -/
inductive Shape (cs : List Char) : Prop where
  | dashes (h : cs = ['-', '-'])
  | long (c : Char) (rest : List Char) (h : cs = '-' :: '-' :: c :: rest)
  | short (c : Char) (rest : List Char) (h : cs = '-' :: c :: rest) (hc : c ≠ '-')
  | plain (h : ∀ c rest, cs ≠ '-' :: c :: rest)

theorem shape (cs : List Char) : Shape cs := by
  by_cases h : ∃ c rest, cs = '-' :: c :: rest
  · obtain ⟨c, rest, rfl⟩ := h
    by_cases hc : c = '-'
    · subst hc
      cases rest with
      | nil => exact .dashes rfl
      | cons d rest => exact .long d rest rfl
    · exact .short c rest rfl hc
  · exact .plain fun c rest hcs => h ⟨c, rest, hcs⟩

namespace Scan

variable {scan : Scan} {argument : String}

theorem next?_dashes (h : scan.expecting ≠ .names) (ha : argument.toList = ['-', '-']) :
    scan.next? argument =
      if scan.expecting.isOwed then none else some { scan with expecting := .names } := by
  rw [next?, if_neg h, ha]
  rfl

theorem next?_long {c : Char} {rest : List Char} (h : scan.expecting ≠ .names)
    (ha : argument.toList = '-' :: '-' :: c :: rest) :
    scan.next? argument =
      if scan.expecting.isOwed then none
      else long? scan.options (nameAndValue (c :: rest)).1 (nameAndValue (c :: rest)).2 := by
  rw [next?, if_neg h, ha]
  rfl

theorem next?_short {c : Char} {rest : List Char} (h : scan.expecting ≠ .names)
    (ha : argument.toList = '-' :: c :: rest) (hc : c ≠ '-') :
    scan.next? argument =
      if scan.takesNegative (c :: rest) then scan.plain? argument
      else if scan.expecting.isOwed then none
      else short? scan.options (c :: rest) := by
  rw [next?, if_neg h, ha]
  simp [hc]

theorem next?_plain (h : scan.expecting ≠ .names)
    (ha : ∀ c rest, argument.toList ≠ '-' :: c :: rest) :
    scan.next? argument = scan.plain? argument := by
  rw [next?, if_neg h]
  split
  · next hdash => exact absurd hdash (ha _ _)
  · next hdash => exact absurd hdash (ha _ _)
  · next hdash => exact absurd hdash (ha _ _)
  · rfl

/-- The text after two dashes is the name alone, or the name, an equals sign and the value. -/
theorem eq_of_nameAndValue {cs : List Char} {name : String} {value : Option (List Char)}
    (h : nameAndValue cs = (name, value)) :
    cs = name.toList ++ value.elim [] ('=' :: ·) := by
  have hsplit : cs.takeWhile (· ≠ '=') ++ cs.dropWhile (· ≠ '=') = cs :=
    List.takeWhile_append_dropWhile
  have hhead := List.head?_dropWhile_not (· ≠ '=') cs
  unfold nameAndValue at h
  split at h
  · next hdrop =>
    obtain ⟨rfl, rfl⟩ := Prod.mk.inj h
    rw [hdrop, List.append_nil] at hsplit
    rw [String.toList_ofList, hsplit]
    exact (List.append_nil cs).symm
  · next c rest hdrop =>
    obtain ⟨rfl, rfl⟩ := Prod.mk.inj h
    rw [hdrop] at hsplit hhead
    obtain rfl : c = '=' := by simpa using hhead
    rw [String.toList_ofList]
    exact hsplit.symm

theorem not_takesNegative {c : Char} {rest : List Char} (h : (c :: rest).all Char.isDigit = false) :
    scan.takesNegative (c :: rest) = false := by
  unfold takesNegative
  split
  · exact h
  · rfl

/-- What looks like an option is one, unless a value is owed, and ends a list of values. -/
theorem next?_of_looksLikeOption (h : looksLikeOption argument = true)
    (hnames : scan.expecting ≠ .names) :
    scan.next? argument =
      if scan.expecting.isOwed then none
      else next? ⟨scan.options, .anything⟩ argument := by
  have hanything : Expecting.anything ≠ .names := nofun
  have hdash : ∀ c rest, argument.toList = '-' :: c :: rest →
      (c :: rest).all Char.isDigit = false := by
    intro c rest hcs
    rw [looksLikeOption, hcs] at h
    exact Bool.not_eq_true' _ ▸ h
  cases shape argument.toList with
  | dashes hcs =>
    rw [next?_dashes hnames hcs, next?_dashes hanything hcs]
    rfl
  | long c rest hcs =>
    rw [next?_long hnames hcs, next?_long hanything hcs]
    rfl
  | short c rest hcs hc =>
    rw [next?_short hnames hcs hc, next?_short hanything hcs hc,
      not_takesNegative (hdash c rest hcs), not_takesNegative (hdash c rest hcs)]
    rfl
  | plain hcs =>
    rw [looksLikeOption] at h
    split at h
    · next c rest hdash => exact absurd hdash (hcs c rest)
    · cases h

end Scan

/-! ## Arguments that are no occurrences -/

/-- No argument is going to be a value of the option, and none a mere name. -/
def Expecting.Spares (option : ListOption) : Expecting → Prop
  | anything | stepLimit => True
  | values other _ => other ≠ option
  | names => False

theorem Expecting.Spares.ne_names {option : ListOption} {expecting : Expecting}
    (h : expecting.Spares option) : expecting ≠ .names := by
  rintro rfl
  exact h

/-- An update of the options that leaves an option alone, whatever its values are. -/
structure Keeps (option : ListOption) (update : Options → Option Options) : Prop where
  append : ∀ options v, update (options.append option v) =
    (update options).map (·.append option v)
  values : ∀ options, ∀ after ∈ update options, after.values option = options.values option

/-- The same of a step that also says what to expect next. -/
structure Ignores (option : ListOption) (read : Options → Option Scan) : Prop where
  gain : ∀ options v, read (options.append option v) = (read options).map (·.gain option v)
  values : ∀ options, ∀ after ∈ read options, after.options.values option = options.values option
  spares : ∀ options, ∀ after ∈ read options, after.expecting.Spares option

namespace Keeps

variable {option : ListOption}

theorem addValue? {other : ListOption} (h : other ≠ option) (value : List Char) :
    Keeps option (·.addValue? other value) where
  append options v := by
    simp only [Options.addValue?, Option.map_map]
    refine congrArg (Option.map · _) (funext fun w => ?_)
    exact options.append_comm option h v w
  values options after hafter := by
    obtain ⟨w, -, rfl⟩ := Option.map_eq_some_iff.mp hafter
    exact options.values_append_of_ne option h w

theorem setMaxSteps? (value : List Char) : Keeps option (·.setMaxSteps? value) where
  append options v := by
    have hlimit : (options.append option v).maxSteps = options.maxSteps := by cases option <;> rfl
    simp only [Options.setMaxSteps?, hlimit]
    split
    · split
      · cases option <;> rfl
      · rfl
    · rfl
  values options after hafter := by
    simp only [Options.setMaxSteps?] at hafter
    split at hafter
    · split at hafter
      · cases hafter
        cases option <;> rfl
      · cases hafter
    · cases hafter

theorem setName? (name : String) : Keeps option (·.setName? name) where
  append options v := by
    have hname : (options.append option v).name = options.name := by cases option <;> rfl
    simp only [Options.setName?, hname]
    split
    · cases option <;> rfl
    · rfl
  values options after hafter := by
    simp only [Options.setName?] at hafter
    split at hafter
    · cases hafter
      cases option <;> rfl
    · cases hafter

/-- A change that is made once, unless its flag is up. -/
theorem once {flag : Options → Bool} {raise : Options → Options}
    (hflag : ∀ options v, flag (options.append option v) = flag options)
    (hraise : ∀ options v, raise (options.append option v) = (raise options).append option v)
    (hvalues : ∀ options, (raise options).values option = options.values option) :
    Keeps option fun options => if flag options then none else some (raise options) where
  append options v := by
    simp only [hflag, hraise]
    split <;> rfl
  values options after hafter := by
    split at hafter
    · cases hafter
    · cases hafter
      exact hvalues options

theorem setFlag? (name : String) : Keeps option (·.setFlag? name) := by
  unfold Options.setFlag?
  split
  case h_5 => exact ⟨fun _ _ => rfl, fun _ _ h => nomatch h⟩
  -- every other name has a flag of its own, apart from the lists of values
  all_goals
    exact once (by cases option <;> exact fun _ _ => rfl) (by cases option <;> exact fun _ _ => rfl)
      (by cases option <;> exact fun _ => rfl)

/-- An update and a fixed expectation make a step. -/
theorem ignores {update : Options → Option Options} (h : Keeps option update)
    {expecting : Expecting} (he : expecting.Spares option) :
    Ignores option fun options => (update options).map (⟨·, expecting⟩) where
  gain options v := by
    simp only [h.append, Option.map_map]
    rfl
  values options after hafter := by
    obtain ⟨updated, hupdated, rfl⟩ := Option.map_eq_some_iff.mp hafter
    exact h.values options updated hupdated
  spares options after hafter := by
    obtain ⟨updated, -, rfl⟩ := Option.map_eq_some_iff.mp hafter
    exact he

end Keeps

namespace Ignores

variable {option : ListOption}

theorem refuse : Ignores option fun _ => none :=
  ⟨fun _ _ => rfl, fun _ _ h => (nomatch h), fun _ _ h => (nomatch h)⟩

theorem expect {expecting : Expecting} (h : expecting.Spares option) :
    Ignores option fun options => some ⟨options, expecting⟩ where
  gain _ _ := rfl
  values _ after hafter := by cases hafter; rfl
  spares _ after hafter := by cases hafter; exact h

theorem long? {name : String} (h : name ≠ option.name) (attached : Option (List Char)) :
    Ignores option (Scan.long? · name attached) := by
  have hother (other : ListOption) (hname : name = other.name) : other ≠ option := by
    rintro rfl
    exact h hname
  unfold Scan.long?
  split
  · exact expect (hother .input rfl)
  · exact (Keeps.addValue? (hother .input rfl) _).ignores trivial
  · exact expect (hother .phases rfl)
  · exact (Keeps.addValue? (hother .phases rfl) _).ignores trivial
  · exact expect trivial
  · exact (Keeps.setMaxSteps? _).ignores trivial
  · exact (Keeps.setFlag? _).ignores trivial
  · exact refuse

theorem short? {c : Char} (h : option = .input → c ≠ 'i') (rest : List Char) :
    Ignores option (Scan.short? · (c :: rest)) := by
  have hother (hc : c = 'i') : .input ≠ option := fun ho => h ho.symm hc
  unfold Scan.short?
  split
  · next heq => exact expect (hother (List.cons.inj heq).1)
  · next heq => exact (Keeps.addValue? (hother (List.cons.inj heq).1) _).ignores trivial
  · next heq => exact (Keeps.addValue? (hother (List.cons.inj heq).1) _).ignores trivial
  · exact refuse

theorem plain? {expecting : Expecting} (h : expecting.Spares option) (argument : String) :
    Ignores option fun options => Scan.plain? ⟨options, expecting⟩ argument := by
  cases expecting with
  | anything => exact (Keeps.setName? argument).ignores trivial
  | values other hasOne => exact (Keeps.addValue? h _).ignores h
  | stepLimit => exact (Keeps.setMaxSteps? _).ignores trivial
  | names => exact h.elim

/-- The name behind two dashes tells an occurrence. -/
theorem name_ne {argument : String} {rest : List Char}
    (h : ¬ option.Occurs argument) (ha : argument.toList = '-' :: '-' :: rest) :
    (Scan.nameAndValue rest).1 ≠ option.name := by
  intro hname
  obtain ⟨value, hvalue⟩ : ∃ value, Scan.nameAndValue rest = (option.name, value) :=
    ⟨_, Prod.ext hname rfl⟩
  have hrest := Scan.eq_of_nameAndValue hvalue
  cases value with
  | none =>
    have hargument : argument = "--" ++ option.name := by
      refine String.toList_inj.mp ?_
      rw [ha, hrest, String.toList_append]
      exact congrArg ('-' :: '-' :: ·) (List.append_nil _)
    refine h (.inl ?_)
    rw [hargument]
    cases option <;> decide
  | some value =>
    refine h (.inr ⟨"--" ++ option.name ++ "=", ?_, value, ?_⟩)
    · cases option <;> decide
    · rw [ha, hrest, String.toList_append, String.toList_append, List.append_assoc,
        List.append_assoc]
      rfl

/-- **An argument that is no occurrence of an option ignores it**, unless a value of the option is
expected. -/
theorem next? {expecting : Expecting} (he : expecting.Spares option) {argument : String}
    (h : ¬ option.Occurs argument) (hdashes : argument ≠ "--") :
    Ignores option fun options => Scan.next? ⟨options, expecting⟩ argument := by
  have hnames : ∀ options, (⟨options, expecting⟩ : Scan).expecting ≠ .names :=
    fun _ => he.ne_names
  have howed {read : Options → Option Scan} (hread : Ignores option read) :
      Ignores option fun options => if expecting.isOwed then none else read options := by
    cases expecting.isOwed
    · exact hread
    · exact refuse
  cases shape argument.toList with
  | dashes hcs => exact absurd (String.toList_inj.mp hcs) hdashes
  | long c rest hcs =>
    simp only [Scan.next?_long (hnames _) hcs]
    exact howed (long? (name_ne h hcs) _)
  | short c rest hcs hc =>
    have hi : option = .input → c ≠ 'i' := by
      rintro rfl rfl
      exact h (.inr ⟨"-i", by decide, rest, hcs.symm⟩)
    simp only [Scan.next?_short (hnames _) hcs hc]
    have htakes (options : Options) : Scan.takesNegative ⟨options, expecting⟩ (c :: rest) =
        Scan.takesNegative ⟨{}, expecting⟩ (c :: rest) := rfl
    simp only [htakes]
    split
    · exact plain? he argument
    · exact howed (short? hi rest)
  | plain hcs =>
    simp only [Scan.next?_plain (hnames _) hcs]
    exact plain? he argument

end Ignores

namespace Scan

variable {option : ListOption}

/-! ## Occurrences and values -/

theorem next?_long_attached {scan : Scan} (hnames : scan.expecting ≠ .names) (option : ListOption)
    (value : String) :
    scan.next? ("--" ++ option.name ++ "=" ++ value) =
      if scan.expecting.isOwed then none
      else (scan.options.addValue? option value.toList).map (⟨·, .anything⟩) := by
  cases option with
  | input =>
    rw [next?_long hnames String.toList_append]
    rfl
  | phases =>
    rw [next?_long hnames String.toList_append]
    rfl

/-- A text of words is an attached value behind `-i`, also without an equals sign: it is not empty
and does not start with one. -/
theorem short?_wordsText (options : Options) {words : List Word} (h : words ≠ []) :
    short? options ('i' :: (Program.wordsText words).toList) =
      some ⟨options.append .input words, .anything⟩ := by
  have hvalue := options.addValue?_wordsText .input h
  have hequals : '=' ∉ (Program.wordsText words).toList :=
    Program.not_mem_wordsText rfl (by decide) (by decide) words
  unfold short?
  split
  · next heq =>
    rw [(List.cons.inj heq).2] at hvalue
    cases hvalue
  · next heq =>
    rw [(List.cons.inj heq).2] at hequals
    exact absurd List.mem_cons_self hequals
  · next heq =>
    rw [← (List.cons.inj heq).2, hvalue]
    rfl
  · next hi => exact absurd rfl (hi _)

/-- **An occurrence adds its group**, unless a value is owed. -/
theorem next?_occurrence {scan : Scan} (hnames : scan.expecting ≠ .names) {lead : String}
    (hlead : lead ∈ option.leads) {group : List Word} (hgroup : group ≠ []) :
    scan.next? (lead ++ Program.wordsText group) =
      if scan.expecting.isOwed then none
      else some ⟨scan.options.append option group, .anything⟩ := by
  have hvalue := scan.options.addValue?_wordsText option hgroup
  have hnegative (rest : List Char) : scan.takesNegative ('i' :: rest) = false :=
    not_takesNegative rfl
  cases option with
  | input =>
    simp only [ListOption.leads, List.mem_cons, List.not_mem_nil, or_false] at hlead
    rcases hlead with rfl | rfl | rfl
    · have hcs : ("-i" ++ Program.wordsText group).toList =
          '-' :: 'i' :: (Program.wordsText group).toList := String.toList_append
      rw [next?_short hnames hcs (by decide), hnegative, short?_wordsText _ hgroup]
      rfl
    · have hcs : ("-i=" ++ Program.wordsText group).toList =
          '-' :: 'i' :: '=' :: (Program.wordsText group).toList := String.toList_append
      rw [next?_short hnames hcs (by decide), hnegative, short?, hvalue]
      rfl
    · refine (next?_long_attached hnames .input (Program.wordsText group)).trans ?_
      rw [hvalue]
      rfl
  | phases =>
    obtain rfl : lead = "--phases=" := by simpa [ListOption.leads] using hlead
    refine (next?_long_attached hnames .phases (Program.wordsText group)).trans ?_
    rw [hvalue]
    rfl

/-- The option itself makes its values the next thing that is expected. -/
theorem next?_flag {scan : Scan} (hnames : scan.expecting ≠ .names) {flag : String}
    (hflag : flag ∈ option.flags) :
    scan.next? flag =
      if scan.expecting.isOwed then none else some ⟨scan.options, .values option false⟩ := by
  cases option with
  | input =>
    simp only [ListOption.flags, List.mem_cons, List.not_mem_nil, or_false] at hflag
    rcases hflag with rfl | rfl
    · rw [next?_short (c := 'i') hnames rfl (by decide), not_takesNegative rfl]
      rfl
    · rw [next?_long hnames rfl]
      rfl
  | phases =>
    obtain rfl : flag = "--phases" := by simpa [ListOption.flags] using hflag
    rw [next?_long hnames rfl]
    rfl

/-- **An argument that is a word is a value where one is expected**, also if it is negative. -/
theorem next?_text (options : Options) (hasOne : Bool) (word : Word) :
    next? ⟨options, .values option hasOne⟩ word.text =
      some ⟨options.append option [word], .values option true⟩ := by
  have hplain : plain? ⟨options, .values option hasOne⟩ word.text =
      some ⟨options.append option [word], .values option true⟩ := by
    change (options.addValue? option word.text.toList).map _ = _
    rw [options.addValue?_text]
    rfl
  have hnames : Expecting.values option hasOne ≠ .names := nofun
  cases hval : word.val with
  | ofNat n =>
    have htext : word.text = Decimal.ofNat n := by rw [Word.text, hval]; rfl
    rw [next?_plain hnames, hplain]
    intro c rest hcs
    have hdigit : '-'.isDigit = true := by
      refine Decimal.isDigit_of_mem_ofNat (n := n) ?_
      rw [← htext, hcs]
      exact List.mem_cons_self
    cases hdigit
  | negSucc n =>
    have htext : word.text.toList = '-' :: (Decimal.ofNat (n + 1)).toList := by
      rw [Word.text, hval]
      exact String.toList_append
    obtain ⟨c, rest, hdigits⟩ : ∃ c rest, (Decimal.ofNat (n + 1)).toList = c :: rest := by
      refine List.exists_cons_of_ne_nil fun hnil => ?_
      have hread := Decimal.nat?_ofNat (n + 1)
      rw [hnil] at hread
      cases hread
    have hall : ∀ d ∈ c :: rest, d.isDigit = true := by
      rw [← hdigits]
      exact fun d => Decimal.isDigit_of_mem_ofNat
    have hc : c ≠ '-' := (Decimal.ne_sign_of_isDigit (hall c List.mem_cons_self)).1
    have htakes : takesNegative ⟨options, .values option hasOne⟩ (c :: rest) = true :=
      List.all_eq_true.mpr hall
    rw [next?_short hnames (hdigits ▸ htext) hc, htakes, if_pos rfl, hplain]

/-- Arguments that are words add the words. -/
theorem foldlM_texts (options : Options) (hasOne : Bool) (words : List Word) :
    (words.map Word.text).foldlM next? ⟨options, .values option hasOne⟩ =
      some ⟨options.append option words, .values option (hasOne || !words.isEmpty)⟩ := by
  induction words generalizing options hasOne with
  | nil => simp [options.append_nil]
  | cons word words ih =>
    rw [List.map_cons, List.foldlM_cons, next?_text]
    simp [ih, options.append_append]

theorem expecting_long? {options : Options} {name : String} {attached : Option (List Char)}
    {after : Scan} (h : long? options name attached = some after) : after.expecting ≠ .names := by
  unfold long? at h
  split at h
  all_goals first
    | cases h
    | obtain ⟨_, -, rfl⟩ := Option.map_eq_some_iff.mp h
  all_goals exact Expecting.noConfusion

theorem expecting_short? {options : Options} {cs : List Char} {after : Scan}
    (h : short? options cs = some after) : after.expecting ≠ .names := by
  unfold short? at h
  split at h
  all_goals first
    | cases h
    | obtain ⟨_, -, rfl⟩ := Option.map_eq_some_iff.mp h
  all_goals exact Expecting.noConfusion

theorem expecting_plain? {scan after : Scan} (hnames : scan.expecting ≠ .names) {argument : String}
    (h : scan.plain? argument = some after) : after.expecting ≠ .names := by
  unfold plain? at h
  split at h
  all_goals obtain ⟨_, -, rfl⟩ := Option.map_eq_some_iff.mp h
  all_goals first
    | exact hnames
    | exact Expecting.noConfusion

/-- Only two dashes make every argument a name. -/
theorem expecting_next? {scan after : Scan} (hnames : scan.expecting ≠ .names) {argument : String}
    (hdashes : argument ≠ "--") (h : scan.next? argument = some after) :
    after.expecting ≠ .names := by
  cases shape argument.toList with
  | dashes hcs => exact absurd (String.toList_inj.mp hcs) hdashes
  | long c rest hcs =>
    rw [next?_long hnames hcs] at h
    split at h
    · cases h
    · exact expecting_long? h
  | short c rest hcs hc =>
    rw [next?_short hnames hcs hc] at h
    split at h
    · exact expecting_plain? hnames h
    · split at h
      · cases h
      · exact expecting_short? h
  | plain hcs =>
    rw [next?_plain hnames hcs] at h
    exact expecting_plain? hnames h

/-! ## Asking for help -/

variable {scan : Scan} {argument : String}

theorem h_mem_of_isHelp (h : isHelp argument = true) : 'h' ∈ argument.toList := by
  rcases (Bool.or_eq_true _ _).mp h with heq | hpre
  · rw [of_decide_eq_true heq]
    decide
  · exact (List.isPrefixOf_iff_prefix.mp hpre).subset (by decide)

theorem isHelp_text (word : Word) : isHelp word.text = false :=
  Bool.eq_false_iff.mpr fun h => word.not_mem_text rfl (by decide) (h_mem_of_isHelp h)

/-- A scan does not go on where help is asked for. -/
theorem next?_of_isHelp (hnames : scan.expecting ≠ .names) (h : isHelp argument = true) :
    scan.next? argument = none := by
  rcases (Bool.or_eq_true _ _).mp h with heq | hpre
  · rw [next?_long hnames (of_decide_eq_true heq)]
    split <;> rfl
  · obtain ⟨rest, hrest⟩ := List.isPrefixOf_iff_prefix.mp hpre
    rw [next?_short hnames hrest.symm (by decide), not_takesNegative rfl]
    split
    · next hfalse => cases hfalse
    · split <;> rfl

theorem foldlM_of_meetsHelp {arguments : List String} (h : scan.meetsHelp arguments = true) :
    arguments.foldlM next? scan = none := by
  induction arguments generalizing scan with
  | nil => cases h
  | cons argument rest ih =>
    rw [List.foldlM_cons]
    rcases (Bool.or_eq_true _ _).mp h with hhere | hlater
    · obtain ⟨hhelp, -⟩ := (Bool.and_eq_true _ _).mp hhere
      obtain ⟨hhelp, hnames⟩ := (Bool.and_eq_true _ _).mp hhelp
      rw [next?_of_isHelp (of_decide_eq_true hnames) hhelp]
      rfl
    · cases hnext : scan.next? argument with
      | none => rfl
      | some after =>
        rw [hnext] at hlater
        exact ih hlater

/-- Help is asked for in one of two lists of arguments, the second being read after the first. -/
theorem meetsHelp_append (scan : Scan) (arguments more : List String) :
    scan.meetsHelp (arguments ++ more) =
      (scan.meetsHelp arguments ||
        (arguments.foldlM next? scan).any (·.meetsHelp more)) := by
  induction arguments generalizing scan with
  | nil => rfl
  | cons argument rest ih =>
    rw [List.cons_append, meetsHelp, meetsHelp, List.foldlM_cons, Bool.or_assoc]
    congr 1
    cases hnext : scan.next? argument with
    | none => rfl
    | some after => exact ih after

theorem meetsHelp_eq_false {arguments : List String}
    (h : ∀ argument ∈ arguments, isHelp argument = false) : scan.meetsHelp arguments = false := by
  induction arguments generalizing scan with
  | nil => rfl
  | cons argument rest ih =>
    obtain ⟨hargument, hrest⟩ := List.forall_mem_cons.mp h
    rw [meetsHelp, hargument]
    cases scan.next? argument with
    | none => rfl
    | some after => exact ih hrest

end Scan

/-- **Arguments that ask for help make no request.** -/
theorem ofArguments?_of_asksForHelp {arguments : List String} (h : asksForHelp arguments = true) :
    Request.ofArguments? arguments = none := by
  have hscan := Scan.foldlM_of_meetsHelp h
  rw [Request.ofArguments?, Options.ofArguments?, hscan]
  rfl

end Intcode.CommandLine
