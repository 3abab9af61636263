import LeastSquares.IdMap
import LeastSquares.Settings.Basic
import Mathlib.Data.List.Nodup

/-!
# Which named values are settings

Named values are settings if every name is one of a setting, the switch is given by something
that counts as a truth value, and the cutoff by something that counts as a number strictly
between zero and one (`Acceptable`).  Everything else is refused, field by field: the settings
in the order in which they are declared, then the names that are none in the order in which
they came (`Lists`).

`readField_eq_ok_iff` and `mem_refusals_readField_iff` say what is read for one setting.  They
hold of all settings alike, so that another setting takes one more use of each.
-/

namespace LeastSquares

open Setting (Cause)

/-! ## Single settings -/

namespace Setting

theorem mem_all (setting : Setting) : setting ∈ all := by
  cases setting <;> decide

theorem name_injective : Function.Injective name := by
  intro a b
  cases a <;> cases b <;> decide

/-- A setting is declared before another one. -/
def Precedes (a b : Setting) : Prop := [a, b].Sublist all

instance (a b : Setting) : Decidable (a.Precedes b) :=
  inferInstanceAs (Decidable ([a, b].Sublist all))

/-- Names of settings that come as the settings are declared. -/
theorem precedes_of_names {a b : Setting} (h : [a.name, b.name].Sublist (all.map name)) :
    a.Precedes b := by
  revert h
  cases a <;> cases b <;> decide

theorem Precedes.asymm {a b : Setting} : a.Precedes b → ¬ b.Precedes a := by
  cases a <;> cases b <;> decide

/-- A value is refused for a setting. -/
inductive Refuses : Setting → Datum → Cause → Prop
  | flag {d : Datum} {cause : Cause} (h : d.flag = .error cause) : Refuses nativeMath d cause
  | cutoff {d : Datum} {cause : Cause} (h : d.cutoff = .error cause) :
      Refuses singularityThreshold d cause

end Setting

namespace Datum

variable {d : Datum} {c : Cutoff}

theorem cutoff_eq_ok_iff : d.cutoff = .ok c ↔ d.ratio = .ok c.val := by
  unfold cutoff
  cases d.ratio with
  | error cause => simp [Except.bind]
  | ok x =>
      have hbind : (Except.ok x).bind cutoffOf = cutoffOf x := rfl
      rw [hbind, Except.ok.injEq]
      unfold cutoffOf
      constructor
      · intro h
        split at h
        · rw [← Except.ok.inj h]
        · split at h <;> cases h
      · intro h
        subst h
        rw [dif_pos c.property]

/-- A value is a cutoff if it counts as a number strictly between zero and one. -/
theorem exists_cutoff_iff :
    (∃ c, d.cutoff = .ok c) ↔ ∃ t, d.ratio = .ok t ∧ 0 < t ∧ t < 1 := by
  constructor
  · rintro ⟨c, hc⟩
    exact ⟨c.val, cutoff_eq_ok_iff.mp hc, c.property⟩
  · rintro ⟨t, ht, hbounds⟩
    exact ⟨⟨t, hbounds⟩, cutoff_eq_ok_iff.mpr ht⟩

end Datum

namespace Settings

/-! ## Fields -/

/-- The names of fields, in order. -/
def names (fields : Fields) : List String := fields.map Prod.fst

variable {fields : Fields} {s : Settings}

section ReadField

variable {α : Type} {setting : Setting} {f : Datum → Except Cause α} {fallback : α}

theorem readField_eq_ok_iff (hdistinct : (names fields).Nodup) {x : α} :
    readField setting f fallback fields = .ok x ↔
      (∀ d, (setting.name, d) ∈ fields → f d = .ok x) ∧
        (setting.name ∉ names fields → x = fallback) := by
  have hmem (d : Datum) : fields.lookup setting.name = some d ↔ (setting.name, d) ∈ fields :=
    IdMap.lookup_eq_some_iff_mem hdistinct
  unfold readField
  cases hlookup : fields.lookup setting.name with
  | none =>
      have hnot : setting.name ∉ names fields := IdMap.lookup_eq_none_iff_notMem.mp hlookup
      have hnone (d : Datum) : (setting.name, d) ∉ fields := by
        rw [← hmem, hlookup]
        exact nofun
      simp [hnot, hnone, eq_comm]
  | some d =>
      have hname : setting.name ∈ names fields := List.mem_map_of_mem ((hmem d).mp hlookup)
      simp only [← hmem, hlookup, hname, Option.some.injEq, forall_eq', not_true_eq_false,
        false_implies, and_true]
      cases f d <;> simp [Except.mapError]

theorem mem_refusals_readField_iff (hdistinct : (names fields).Nodup) {refusal : Refusal} :
    refusal ∈ refusals (readField setting f fallback fields) ↔
      ∃ d, (setting.name, d) ∈ fields ∧ ∃ cause, f d = .error cause ∧
        refusal = ⟨setting.name, cause⟩ := by
  simp only [← IdMap.lookup_eq_some_iff_mem hdistinct]
  unfold readField
  cases fields.lookup setting.name with
  | none => simp [refusals]
  | some d => cases hf : f d <;> simp [refusals, Except.mapError, hf]

theorem map_field_refusals_readField (setting : Setting) (f : Datum → Except Cause α)
    (fallback : α) (fields : Fields) :
    ((refusals (readField setting f fallback fields)).map Refusal.field).Sublist
      [setting.name] := by
  unfold readField
  cases fields.lookup setting.name with
  | none => exact List.nil_sublist _
  | some d =>
      cases hf : f d <;> simp [refusals, Except.mapError, hf]

end ReadField

/-- A name is the name of a setting. -/
def Declared (name : String) : Prop := ∃ setting : Setting, name = setting.name

theorem declared_iff {name : String} : Declared name ↔ name ∈ Setting.all.map Setting.name := by
  constructor
  · rintro ⟨setting, rfl⟩
    exact List.mem_map_of_mem setting.mem_all
  · intro h
    obtain ⟨setting, -, rfl⟩ := List.mem_map.mp h
    exact ⟨setting, rfl⟩

instance (name : String) : Decidable (Declared name) := decidable_of_iff _ declared_iff.symm

theorem unknownFields_eq : unknownFields fields =
    (fields.filter fun entry => ¬ Declared entry.1).map fun entry => ⟨entry.1, .unknownName⟩ := by
  have hcontains (name : String) :
      (Setting.all.map Setting.name).contains name = decide (Declared name) := by
    rw [Bool.eq_iff_iff, List.contains_iff_mem, decide_eq_true_iff, declared_iff]
  unfold unknownFields
  simp only [hcontains, decide_not]

theorem mem_unknownFields_iff {refusal : Refusal} : refusal ∈ unknownFields fields ↔
    ∃ d, (refusal.field, d) ∈ fields ∧ ¬ Declared refusal.field ∧
      refusal.cause = .unknownName := by
  simp only [unknownFields_eq, List.mem_map, List.mem_filter, decide_eq_true_eq]
  constructor
  · rintro ⟨⟨name, d⟩, ⟨hmem, hname⟩, rfl⟩
    exact ⟨d, hmem, hname, rfl⟩
  · rintro ⟨d, hmem, hname, hcause⟩
    refine ⟨(refusal.field, d), ⟨hmem, hname⟩, ?_⟩
    rw [← hcause]

theorem map_field_unknownFields : (unknownFields fields).map Refusal.field =
    (names fields).filter fun name => ¬ Declared name := by
  unfold names
  rw [unknownFields_eq, List.map_map, List.filter_map]
  rfl

theorem unknownFields_eq_nil_iff :
    unknownFields fields = [] ↔ ∀ name ∈ names fields, Declared name := by
  rw [← List.map_eq_nil_iff (f := Refusal.field), map_field_unknownFields, List.filter_eq_nil_iff]
  simp

/-! ## Made or refused -/

/-- A field is refused, alone and whatever the other fields are. -/
inductive Offends : String → Datum → Cause → Prop
  | value {setting : Setting} {d : Datum} {cause : Cause} (h : setting.Refuses d cause) :
      Offends setting.name d cause
  | name {name : String} {d : Datum} (h : ¬ Declared name) : Offends name d .unknownName

theorem offends_iff {setting : Setting} {d : Datum} {cause : Cause} :
    Offends setting.name d cause ↔ setting.Refuses d cause := by
  refine ⟨fun h => ?_, .value⟩
  generalize hname : setting.name = name at h
  cases h with
  | value hrefuses => rwa [Setting.name_injective hname]
  | name hundeclared => exact absurd ⟨setting, hname.symm⟩ hundeclared

/-- Settings can be made of named values. -/
structure Acceptable (fields : Fields) : Prop where
  declared : ∀ name ∈ names fields, Declared name
  nativeMath : ∀ d, (Setting.nativeMath.name, d) ∈ fields → ∃ b, d.flag = .ok b
  threshold : ∀ d, (Setting.singularityThreshold.name, d) ∈ fields →
    ∃ t, d.ratio = .ok t ∧ 0 < t ∧ t < 1

/-- Settings have the values that named values say, and else their defaults. -/
structure Holds (fields : Fields) (s : Settings) : Prop where
  nativeMath : ∀ d, (Setting.nativeMath.name, d) ∈ fields → d.flag = .ok s.nativeMath
  nativeMath_default : Setting.nativeMath.name ∉ names fields → s.nativeMath = false
  threshold : ∀ d, (Setting.singularityThreshold.name, d) ∈ fields →
    d.ratio = .ok s.threshold.val
  threshold_default : Setting.singularityThreshold.name ∉ names fields →
    s.threshold.val = 1.0e-5

/-- Refusals are those of the fields that are refused, one for each, the settings first and as
they are declared, and then the other names as they came. -/
structure Lists (fields : Fields) (list : List Refusal) : Prop where
  mem_iff : ∀ refusal, refusal ∈ list ↔
    ∃ d, (refusal.field, d) ∈ fields ∧ Offends refusal.field d refusal.cause
  nodup : (list.map Refusal.field).Nodup
  ordered : ∃ declared unknown, list = declared ++ unknown ∧
    (declared.map Refusal.field).Sublist (Setting.all.map Setting.name) ∧
    unknown.map Refusal.field = (names fields).filter fun name => ¬ Declared name

/-- Where all names are declared, the refusals come as the settings are declared. -/
theorem Lists.map_field_sublist {list : List Refusal} (h : Lists fields list)
    (hdeclared : ∀ name ∈ names fields, Declared name) :
    (list.map Refusal.field).Sublist (Setting.all.map Setting.name) := by
  obtain ⟨declared, unknown, rfl, hsublist, hunknown⟩ := h.ordered
  have hnil : unknown.map Refusal.field = [] := by
    rw [hunknown, List.filter_eq_nil_iff]
    simpa using hdeclared
  rwa [List.map_append, hnil, List.append_nil]

theorem ofFields_eq_ok_iff : ofFields fields = .ok s ↔
    readField .nativeMath Datum.flag false fields = .ok s.nativeMath ∧
      readField .singularityThreshold Datum.cutoff Cutoff.default fields = .ok s.threshold ∧
      unknownFields fields = [] := by
  obtain ⟨nativeMath, threshold⟩ := s
  unfold ofFields
  cases readField .nativeMath Datum.flag false fields with
  | error refusal => simp
  | ok b =>
      cases readField .singularityThreshold Datum.cutoff Cutoff.default fields with
      | error refusal => simp
      | ok c => cases unknownFields fields <;> simp

theorem ofFields_eq_error {first : Refusal} {rest : List Refusal}
    (h : ofFields fields = .error (first, rest)) : first :: rest =
      refusals (readField .nativeMath Datum.flag false fields) ++
        refusals (readField .singularityThreshold Datum.cutoff Cutoff.default fields) ++
        unknownFields fields := by
  revert h
  unfold ofFields
  cases readField .nativeMath Datum.flag false fields with
  | error refusal => rintro ⟨⟩; rfl
  | ok b =>
      cases readField .singularityThreshold Datum.cutoff Cutoff.default fields with
      | error refusal => rintro ⟨⟩; rfl
      | ok c =>
          cases unknownFields fields with
          | nil => exact nofun
          | cons refusal unknown => rintro ⟨⟩; rfl

/-- Settings that are made have the values of the fields, none of which is refused. -/
theorem ofFields_eq_ok_iff_holds (hdistinct : (names fields).Nodup) :
    ofFields fields = .ok s ↔ (∀ name ∈ names fields, Declared name) ∧ Holds fields s := by
  rw [ofFields_eq_ok_iff, readField_eq_ok_iff hdistinct, readField_eq_ok_iff hdistinct,
    unknownFields_eq_nil_iff]
  constructor
  · rintro ⟨⟨hflag, hflagDefault⟩, ⟨hcutoff, hcutoffDefault⟩, hdeclared⟩
    refine ⟨hdeclared, hflag, hflagDefault, fun d hd => Datum.cutoff_eq_ok_iff.mp (hcutoff d hd),
      fun hd => ?_⟩
    rw [hcutoffDefault hd]
    rfl
  · rintro ⟨hdeclared, hholds⟩
    exact ⟨⟨hholds.nativeMath, hholds.nativeMath_default⟩,
      ⟨fun d hd => Datum.cutoff_eq_ok_iff.mpr (hholds.threshold d hd),
        fun hd => Subtype.ext (hholds.threshold_default hd)⟩, hdeclared⟩

theorem lists_of_ofFields (hdistinct : (names fields).Nodup) {first : Refusal}
    {rest : List Refusal} (h : ofFields fields = .error (first, rest)) :
    Lists fields (first :: rest) := by
  rw [ofFields_eq_error h]
  have hsublist := List.Sublist.append
    (map_field_refusals_readField .nativeMath Datum.flag false fields)
    (map_field_refusals_readField .singularityThreshold Datum.cutoff Cutoff.default fields)
  rw [← List.map_append] at hsublist
  refine ⟨fun refusal => ?_, ?_, _, _, rfl, hsublist, map_field_unknownFields⟩
  · rw [List.mem_append, List.mem_append, mem_refusals_readField_iff hdistinct,
      mem_refusals_readField_iff hdistinct, mem_unknownFields_iff]
    constructor
    · rintro ((⟨d, hd, cause, hcause, rfl⟩ | ⟨d, hd, cause, hcause, rfl⟩) | ⟨d, hd, hname, hcause⟩)
      · exact ⟨d, hd, .value (.flag hcause)⟩
      · exact ⟨d, hd, .value (.cutoff hcause)⟩
      · exact ⟨d, hd, hcause ▸ .name hname⟩
    · obtain ⟨field, cause⟩ := refusal
      rintro ⟨d, hd, hoffends⟩
      cases hoffends with
      | value hrefuses =>
          cases hrefuses with
          | flag hcause => exact .inl (.inl ⟨d, hd, cause, hcause, rfl⟩)
          | cutoff hcause => exact .inl (.inr ⟨d, hd, cause, hcause, rfl⟩)
      | name hname => exact .inr ⟨d, hd, hname, rfl⟩
  · rw [List.map_append, List.nodup_append]
    refine ⟨hsublist.nodup (by decide), ?_, ?_⟩
    · rw [map_field_unknownFields]
      exact hdistinct.filter _
    · rintro name hname _ hunknown rfl
      rw [map_field_unknownFields, List.mem_filter] at hunknown
      exact of_decide_eq_true hunknown.2 (declared_iff.mpr (hsublist.subset hname))

/-- Named values that are acceptable have no field that is refused. -/
theorem Acceptable.not_offends (hfields : Acceptable fields) {name : String} {d : Datum}
    {cause : Cause} (hd : (name, d) ∈ fields) : ¬ Offends name d cause := by
  intro hoffends
  cases hoffends with
  | value hrefuses =>
      cases hrefuses with
      | flag hcause =>
          obtain ⟨b, hb⟩ := hfields.nativeMath d hd
          rw [hcause] at hb
          cases hb
      | cutoff hcause =>
          obtain ⟨c, hc⟩ := Datum.exists_cutoff_iff.mpr (hfields.threshold d hd)
          rw [hcause] at hc
          cases hc
  | name hname => exact hname (hfields.declared name (List.mem_map_of_mem hd))

theorem exists_ofFields_iff (hdistinct : (names fields).Nodup) :
    (∃ s, ofFields fields = .ok s) ↔ Acceptable fields := by
  constructor
  · rintro ⟨s, hs⟩
    obtain ⟨hdeclared, hholds⟩ := (ofFields_eq_ok_iff_holds hdistinct).mp hs
    exact ⟨hdeclared, fun d hd => ⟨_, hholds.nativeMath d hd⟩,
      fun d hd => ⟨_, hholds.threshold d hd, s.threshold.property⟩⟩
  · intro hfields
    cases hmade : ofFields fields with
    | ok s => exact ⟨s, rfl⟩
    | error report =>
        obtain ⟨first, rest⟩ := report
        have hfirst := ((lists_of_ofFields hdistinct hmade).mem_iff first).mp List.mem_cons_self
        obtain ⟨d, hd, hoffends⟩ := hfirst
        exact absurd hoffends (hfields.not_offends hd)

end Settings

end LeastSquares
