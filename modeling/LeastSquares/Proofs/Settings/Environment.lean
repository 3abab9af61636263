import LeastSquares.Proofs.Settings.Fields
import LeastSquares.Proofs.Text.Quoting
import Mathlib.Data.List.DropRight

/-!
# Settings from an environment

An environment is read as named values: each of its variables that is the one of a setting
gives the value of that setting, without the blanks around it (`NamesSettings`).  Settings
come out of the environment exactly if they come out of the named values, and the same ones.
Otherwise the report is about the first setting that is refused, with its text and with the
message of its refusal, and the text is shown in such a way that no other one is shown alike
(`Text.quoted_injective`).

Nothing else in the environment counts, and neither do blanks around the two texts
(`Text.strip_eq_of_sameUpToBlanks`).
-/

namespace LeastSquares

open Setting (Cause)

/-! ## Blanks around a text -/

namespace Text

theorem trim_append_append {p : Char → Bool} {left right : List Char} (hleft : ∀ c ∈ left, p c)
    (hright : ∀ c ∈ right, p c) (core : List Char) :
    trim p (left ++ core ++ right) = trim p core := by
  unfold trim
  rw [List.append_assoc, List.dropWhile_append_of_pos hleft, List.dropWhile_append]
  split
  · next hempty =>
      rw [List.dropWhile_eq_nil_iff.mpr hright, List.isEmpty_iff.mp hempty]
  · rw [List.reverse_append, List.dropWhile_append_of_pos]
    simpa using hright

/-- Two texts differ in nothing but blanks around a common one. -/
def SameUpToBlanks (s t : String) : Prop :=
  ∃ core : List Char, (∃ left right, s.toList = left ++ core ++ right ∧
      (∀ c ∈ left, isBlank c) ∧ ∀ c ∈ right, isBlank c) ∧
    ∃ left right, t.toList = left ++ core ++ right ∧
      (∀ c ∈ left, isBlank c) ∧ ∀ c ∈ right, isBlank c

theorem strip_eq_of_sameUpToBlanks {s t : String} (h : SameUpToBlanks s t) :
    strip s = strip t := by
  obtain ⟨core, ⟨left, right, hs, hleft, hright⟩, left', right', ht, hleft', hright'⟩ := h
  unfold strip
  rw [hs, ht, trim_append_append hleft hright, trim_append_append hleft' hright']

theorem map_strip_eq_of_rel {s? t? : Option String} (h : Option.Rel SameUpToBlanks s? t?) :
    s?.map strip = t?.map strip := by
  cases h with
  | none => rfl
  | some h => exact congrArg some (strip_eq_of_sameUpToBlanks h)

end Text

namespace Settings

/-! ## The named values of an environment -/

variable {environment environment' : List (String × String)} {fields fields' : Fields}
  {s : Settings}

/-- Named values are those that an environment has for the settings, without the blanks around
them. -/
structure NamesSettings (environment : List (String × String)) (fields : Fields) : Prop where
  distinct : (names fields).Nodup
  mem_iff : ∀ name d, (name, d) ∈ fields ↔ ∃ (setting : Setting) (text : String),
    environment.lookup setting.environmentName = some text ∧
      name = setting.name ∧ d = .text (Text.strip text)

/-- Texts by name as named values. -/
def textFields (fields : List (String × String)) : Fields :=
  fields.map fun entry => (entry.1, .text entry.2)

theorem ofEnvironment_eq (environment : List (String × String)) :
    ofEnvironment environment =
      (ofFields (textFields (environmentFields environment))).mapError fun refused =>
        environmentReport (environmentFields environment) refused.1 := by
  unfold ofEnvironment textFields
  dsimp only
  cases ofFields ((environmentFields environment).map fun entry => (entry.1, .text entry.2)) with
  | ok s => rfl
  | error refused => rfl

theorem environmentFields_congr (h : ∀ setting : Setting,
    (environment.lookup setting.environmentName).map Text.strip =
      (environment'.lookup setting.environmentName).map Text.strip) :
    environmentFields environment = environmentFields environment' := by
  unfold environmentFields
  refine List.filterMap_congr fun setting _ => ?_
  have hpair (text? : Option String) : (text?.map fun text => (setting.name, Text.strip text)) =
      (text?.map Text.strip).map (setting.name, ·) := by
    rw [Option.map_map]
    rfl
  rw [hpair, hpair, h]

theorem mem_environmentFields_iff {name text : String} :
    (name, text) ∈ environmentFields environment ↔ ∃ (setting : Setting) (raw : String),
      environment.lookup setting.environmentName = some raw ∧
        name = setting.name ∧ text = Text.strip raw := by
  unfold environmentFields
  rw [List.mem_filterMap]
  constructor
  · rintro ⟨setting, -, h⟩
    obtain ⟨raw, hraw, heq⟩ := Option.map_eq_some_iff.mp h
    obtain ⟨rfl, rfl⟩ := Prod.mk.inj heq
    exact ⟨setting, raw, hraw, rfl, rfl⟩
  · rintro ⟨setting, raw, hraw, rfl, rfl⟩
    exact ⟨setting, setting.mem_all, Option.map_eq_some_iff.mpr ⟨raw, hraw, rfl⟩⟩

theorem environmentFields_distinct (environment : List (String × String)) :
    ((environmentFields environment).map Prod.fst).Nodup := by
  unfold environmentFields
  rw [List.map_filterMap]
  refine List.Nodup.filterMap ?_ (by decide)
  intro a b name ha hb
  simp only [Option.map_map, Option.mem_def, Option.map_eq_some_iff] at ha hb
  obtain ⟨_, _, hname⟩ := ha
  obtain ⟨_, _, hname'⟩ := hb
  exact Setting.name_injective (hname.trans hname'.symm)

theorem namesSettings_environmentFields (environment : List (String × String)) :
    NamesSettings environment (textFields (environmentFields environment)) where
  distinct := by
    unfold names textFields
    rw [List.map_map]
    exact environmentFields_distinct environment
  mem_iff name d := by
    unfold textFields
    rw [List.mem_map]
    constructor
    · rintro ⟨⟨name', text⟩, hmem, heq⟩
      obtain ⟨rfl, rfl⟩ := Prod.mk.inj heq
      obtain ⟨setting, raw, hraw, hname, rfl⟩ := mem_environmentFields_iff.mp hmem
      exact ⟨setting, raw, hraw, hname, rfl⟩
    · rintro ⟨setting, raw, hraw, rfl, rfl⟩
      exact ⟨(setting.name, Text.strip raw),
        mem_environmentFields_iff.mpr ⟨setting, raw, hraw, rfl, rfl⟩, rfl⟩

namespace NamesSettings

theorem declared (h : NamesSettings environment fields) : ∀ name ∈ names fields, Declared name := by
  intro name hname
  obtain ⟨⟨_, d⟩, hd, rfl⟩ := List.mem_map.mp hname
  obtain ⟨setting, _, -, hsetting, -⟩ := (h.mem_iff _ d).mp hd
  exact ⟨setting, hsetting⟩

/-- The order of named values does not count. -/
theorem ofFields_eq (h : NamesSettings environment fields)
    (h' : NamesSettings environment fields') : ofFields fields = ofFields fields' := by
  have hlookup (name : String) : fields.lookup name = fields'.lookup name := by
    refine Option.ext fun d => ?_
    rw [IdMap.lookup_eq_some_iff_mem h.distinct, IdMap.lookup_eq_some_iff_mem h'.distinct,
      h.mem_iff, h'.mem_iff]
  unfold ofFields readField
  rw [hlookup, hlookup, unknownFields_eq_nil_iff.mpr h.declared,
    unknownFields_eq_nil_iff.mpr h'.declared]

theorem ofEnvironment_eq (h : NamesSettings environment fields) : ofEnvironment environment =
    (ofFields fields).mapError fun refused =>
      environmentReport (environmentFields environment) refused.1 := by
  rw [Settings.ofEnvironment_eq, (namesSettings_environmentFields environment).ofFields_eq h]

theorem ofEnvironment_eq_ok_iff (h : NamesSettings environment fields) :
    ofEnvironment environment = .ok s ↔ ofFields fields = .ok s := by
  rw [h.ofEnvironment_eq]
  cases ofFields fields <;> simp [Except.mapError]

end NamesSettings

/-! ## The first refusal -/

/-- A setting is the first whose text in an environment is refused. -/
structure FirstRefused (environment : List (String × String)) (setting : Setting)
    (text : String) (cause : Cause) : Prop where
  lookup_eq : environment.lookup setting.environmentName = some text
  refuses : setting.Refuses (.text (Text.strip text)) cause
  first : ∀ earlier : Setting, earlier.Precedes setting → ∀ text' cause',
    environment.lookup earlier.environmentName = some text' →
      ¬ earlier.Refuses (.text (Text.strip text')) cause'

theorem NamesSettings.firstRefused (h : NamesSettings environment fields) {first : Refusal}
    {rest : List Refusal} (hlists : Lists fields (first :: rest)) :
    ∃ setting text, first.field = setting.name ∧
      FirstRefused environment setting text first.cause := by
  obtain ⟨d, hd, hoffends⟩ := (hlists.mem_iff first).mp List.mem_cons_self
  obtain ⟨setting, text, htext, hname, rfl⟩ := (h.mem_iff first.field d).mp hd
  rw [hname, offends_iff] at hoffends
  refine ⟨setting, text, hname, htext, hoffends, ?_⟩
  intro earlier hearlier text' cause' htext' hrefuses
  have hfield := (h.mem_iff earlier.name (.text (Text.strip text'))).mpr
    ⟨earlier, text', htext', rfl, rfl⟩
  have hne : ⟨earlier.name, cause'⟩ ≠ first := by
    rintro rfl
    rw [Setting.name_injective hname] at hearlier
    exact hearlier.asymm hearlier
  -- Its refusal comes after the first one, although it is declared before it.
  have hmem := (hlists.mem_iff ⟨earlier.name, cause'⟩).mpr ⟨_, hfield, .value hrefuses⟩
  have hrest := List.mem_of_ne_of_mem hne hmem
  have hpair := (List.singleton_sublist.mpr hrest).cons_cons first
  have hnames := (hpair.map Refusal.field).trans (hlists.map_field_sublist h.declared)
  rw [List.map_cons, hname] at hnames
  exact hearlier.asymm (Setting.precedes_of_names hnames)

/-! ## What comes out of an environment -/

theorem environmentReport_eq {setting : Setting} {text : String} {cause : Cause}
    (h : environment.lookup setting.environmentName = some text) :
    environmentReport (environmentFields environment) ⟨setting.name, cause⟩ =
      ⟨.setting, "Invalid als_linalg configuration for " ++ setting.name ++ "=" ++
        Text.quoted (Text.strip text) ++ ". Detail: " ++ cause.message, some .invalidConfig,
        none⟩ := by
  have hlookup : (environmentFields environment).lookup setting.name = some (Text.strip text) :=
    (IdMap.lookup_eq_some_iff_mem (environmentFields_distinct environment)).mpr
      (mem_environmentFields_iff.mpr ⟨setting, text, h, rfl, rfl⟩)
  unfold environmentReport
  rw [hlookup]
  rfl

/-- **Settings from an environment** are those that its named values make.  A report is about
the first setting that is refused, with its text and the message of its refusal.  The text can be
told from how it is shown, and a plain one is shown between apostrophes.  An environment with the
same two texts, up to blanks around them, gives the same settings or the same report. -/
theorem ofEnvironment_eq_ofFields (h : NamesSettings environment fields) :
    (∀ s, ofEnvironment environment = .ok s ↔ ofFields fields = .ok s) ∧
      (∀ report, ofEnvironment environment = .error report →
        ∃ setting text cause rest, FirstRefused environment setting text cause ∧
          ofFields fields = .error (⟨setting.name, cause⟩, rest) ∧
          report = ⟨.setting, "Invalid als_linalg configuration for " ++ setting.name ++ "=" ++
            Text.quoted (Text.strip text) ++ ". Detail: " ++ cause.message, some .invalidConfig,
            none⟩) ∧
      (∀ environment', (∀ setting : Setting, Option.Rel Text.SameUpToBlanks
          (environment.lookup setting.environmentName)
          (environment'.lookup setting.environmentName)) →
        ofEnvironment environment' = ofEnvironment environment) ∧
      (∀ text text', Text.quoted text = Text.quoted text' → text = text') ∧
      ∀ text : String,
        (∀ c ∈ text.toList, Text.isPrintable c = true ∧ c ≠ '\'' ∧ c ≠ '\\') →
          Text.quoted text = "'" ++ text ++ "'" := by
  refine ⟨fun s => h.ofEnvironment_eq_ok_iff, fun report hreport => ?_,
    fun environment' hsame => ?_, fun _ _ => Text.quoted_injective,
    fun _ => Text.quoted_eq_of_plain⟩
  · rw [h.ofEnvironment_eq] at hreport
    cases hfields : ofFields fields with
    | ok s =>
        rw [hfields] at hreport
        cases hreport
    | error refused =>
        obtain ⟨⟨field, cause⟩, rest⟩ := refused
        obtain ⟨setting, text, rfl, hfirst⟩ := h.firstRefused (lists_of_ofFields h.distinct hfields)
        rw [hfields] at hreport
        refine ⟨setting, text, cause, rest, hfirst, rfl, ?_⟩
        rw [← environmentReport_eq hfirst.lookup_eq]
        exact (Except.error.inj hreport).symm
  · have hfields : environmentFields environment' = environmentFields environment :=
      environmentFields_congr fun setting => (Text.map_strip_eq_of_rel (hsame setting)).symm
    rw [ofEnvironment_eq, ofEnvironment_eq, hfields]

/-- A cutoff with blanks around it that is too large, and before it a word that is no truth
value: the word is reported, and the same is reported where its blanks are others. -/
theorem ofEnvironment_eq_ofFields_two_refused :
    let environment := [("ALS_LINALG_SINGULARITY_THRESHOLD", " 2 "), ("LANG", "C"),
      ("ALS_LINALG_NATIVE_MATH", "\tmaybe\n")]
    let environment' := [("ALS_LINALG_NATIVE_MATH", "maybe\u3000"),
      ("ALS_LINALG_SINGULARITY_THRESHOLD", "2")]
    let fields := [("singularity_threshold", Datum.text "2"), ("native_math", .text "maybe")]
    NamesSettings environment fields ∧
      (∃ report setting text cause rest, ofEnvironment environment = .error report ∧
        FirstRefused environment setting text cause ∧
        ofFields fields = .error (⟨setting.name, cause⟩, rest) ∧ setting = .nativeMath ∧
        report.code = some .invalidConfig ∧
        report.message = "Invalid als_linalg configuration for native_math='maybe'. " ++
          "Detail: Input should be a valid boolean, unable to interpret input") ∧
      (∀ setting : Setting, Option.Rel Text.SameUpToBlanks
        (environment.lookup setting.environmentName)
        (environment'.lookup setting.environmentName)) ∧
      ofEnvironment environment' = ofEnvironment environment := by
  intro environment environment' fields
  have hnames : NamesSettings environment fields := by
    refine ⟨by decide, fun name d => ⟨fun hd => ?_, ?_⟩⟩
    · rcases List.mem_cons.mp hd with hd | hd
      · obtain ⟨rfl, rfl⟩ := Prod.mk.inj hd
        exact ⟨.singularityThreshold, " 2 ", by decide, rfl, rfl⟩
      · obtain ⟨rfl, rfl⟩ := Prod.mk.inj (List.mem_singleton.mp hd)
        exact ⟨.nativeMath, "\tmaybe\n", by decide, rfl, rfl⟩
    · rintro ⟨setting, raw, hraw, rfl, rfl⟩
      cases setting with
      | nativeMath =>
          obtain rfl : "\tmaybe\n" = raw := Option.some.inj hraw
          exact List.mem_cons_of_mem _ List.mem_cons_self
      | singularityThreshold =>
          obtain rfl : " 2 " = raw := Option.some.inj hraw
          exact List.mem_cons_self
  have hword : (Datum.text (Text.strip "\tmaybe\n")).flag = .error .boolParsing := by
    decide +kernel
  have hblank (cs : List Char) (h : cs.all Text.isBlank = true) : ∀ c ∈ cs, Text.isBlank c :=
    List.all_eq_true.mp h
  have hsame (setting : Setting) : Option.Rel Text.SameUpToBlanks
      (environment.lookup setting.environmentName)
      (environment'.lookup setting.environmentName) := by
    cases setting with
    | nativeMath =>
        exact .some ⟨"maybe".toList,
          ⟨['\t'], ['\n'], rfl, hblank _ (by decide), hblank _ (by decide)⟩,
          [], ['\u3000'], rfl, hblank _ (by decide), hblank _ (by decide)⟩
    | singularityThreshold =>
        exact .some ⟨"2".toList, ⟨[' '], [' '], rfl, hblank _ (by decide), hblank _ (by decide)⟩,
          [], [], rfl, hblank _ (by decide), hblank _ (by decide)⟩
  have hall := ofEnvironment_eq_ofFields hnames
  obtain ⟨report, hreport⟩ : ∃ report, ofEnvironment environment = .error report := by
    cases hmade : ofEnvironment environment with
    | error report => exact ⟨report, rfl⟩
    | ok s =>
        have hacceptable := (exists_ofFields_iff hnames.distinct).mp ⟨s, (hall.1 s).mp hmade⟩
        obtain ⟨b, hb⟩ := hacceptable.nativeMath (.text "maybe")
          (List.mem_cons_of_mem _ List.mem_cons_self)
        cases hword.symm.trans hb
  obtain ⟨setting, text, cause, rest, hfirst, hfields, rfl⟩ := hall.2.1 report hreport
  refine ⟨hnames, ?_, hsame, hall.2.2.1 environment' hsame⟩
  cases setting with
  | nativeMath =>
      obtain rfl : "\tmaybe\n" = text := Option.some.inj hfirst.lookup_eq
      cases hfirst.refuses with
      | flag hcause =>
          obtain rfl : Cause.boolParsing = cause := Except.error.inj (hword.symm.trans hcause)
          exact ⟨_, .nativeMath, _, _, rest, hreport, hfirst, hfields, rfl, rfl,
            by decide +kernel⟩
  | singularityThreshold =>
      exact absurd (.flag hword) (hfirst.first .nativeMath (by decide) _ _ rfl)

end Settings

end LeastSquares
