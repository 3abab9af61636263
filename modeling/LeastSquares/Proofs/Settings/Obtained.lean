import LeastSquares.Proofs.Settings.Environment
import LeastSquares.Solver.Basic

/-!
# The settings that reach a solver

There is no way to settings but the named values of `Settings.ofFields`: an environment is read
into named values first, and an attempt to change settings leaves them as they are
(`Obtained.exists_fields`).  So what holds of settings that are made of named values holds of
all settings.  Their threshold is strictly between zero and one, which leaves out what is not
finite, and it is the one by which the solver that they select judges pivots.
-/

namespace LeastSquares

open Setting (Cause)

/-! ## Numbers between zero and one -/

theorem Number.isFinite_of_bounds {x : Float} (hpos : 0 < x) (hlt : x < 1) :
    x.isFinite = true := by
  have hpos' : (0 : Float).toModel.unpack.lt x.toModel.unpack = true := of_decide_eq_true hpos
  have hlt' : x.toModel.unpack.lt (1 : Float).toModel.unpack = true := of_decide_eq_true hlt
  change x.toModel.unpack.isFinite = true
  cases hx : x.toModel.unpack with
  | notANumber =>
      rw [hx] at hlt'
      exact absurd hlt' Bool.false_ne_true
  | infinity sign =>
      rw [hx] at hpos' hlt'
      cases sign with
      | positive => exact absurd hlt' (by decide)
      | negative => exact absurd hpos' (by decide)
  | zero sign => rfl
  | finite sign mantissa exponent hmantissa => rfl

/-- What counts as a NaN or as an infinity is refused as a cutoff, in whatever form it comes. -/
theorem Datum.refuses_of_not_finite {d : Datum} {t : Float} (h : d.ratio = .ok t)
    (hfinite : t.isFinite = false) : ∃ cause, Setting.singularityThreshold.Refuses d cause := by
  cases hc : d.cutoff with
  | error cause => exact ⟨cause, .cutoff hc⟩
  | ok c =>
      have hval : t = c.val := Except.ok.inj (h.symm.trans (cutoff_eq_ok_iff.mp hc))
      have htrue := Number.isFinite_of_bounds c.property.1 c.property.2
      rw [← hval, hfinite] at htrue
      cases htrue

/-! ## The solver that settings select -/

namespace LinearSolver

variable {installed : Bool} {settings : Settings} {solver : LinearSolver}

theorem ofSettings_eq_ok_iff : ofSettings installed settings = .ok solver ↔
    (settings.nativeMath = true → installed = true) ∧
      solver = ⟨if settings.nativeMath then .native else .portable,
        .real settings.threshold.val⟩ := by
  unfold ofSettings make
  cases settings.nativeMath <;> cases installed <;> simp [eq_comm]

theorem exists_ofSettings_iff : (∃ solver, ofSettings installed settings = .ok solver) ↔
    (settings.nativeMath = true → installed = true) := by
  simp only [ofSettings_eq_ok_iff, exists_and_left, exists_eq, and_true]

end LinearSolver

namespace Settings

variable {fields : Fields} {s : Settings}

/-- A solver has the threshold of settings, judges pivots by it, and has the backend that they
select. -/
structure Selects (s : Settings) (solver : LinearSolver) : Prop where
  threshold : solver.threshold.value? = some s.threshold.val
  backend : solver.backend = .native ↔ s.nativeMath = true
  judges : solver.solver = Solver.relative solver.backend.routine s.threshold.val rankRatio
    solver.threshold

theorem selects_of_ofSettings {installed : Bool} {solver : LinearSolver}
    (h : LinearSolver.ofSettings installed s = .ok solver) : Selects s solver := by
  obtain ⟨-, rfl⟩ := LinearSolver.ofSettings_eq_ok_iff.mp h
  have hvalue : (Threshold.real s.threshold.val).value? = some s.threshold.val := rfl
  refine ⟨hvalue, ?_, Threshold.solver_eq_relative hvalue _⟩
  cases s.nativeMath <;> simp

/-! ## All settings -/

/-- Settings that are made of named values or of an environment, or that an attempt to change
them leaves. -/
inductive Obtained : Settings → Prop
  | ofFields {fields : Fields} {s : Settings} (hdistinct : (names fields).Nodup)
      (h : Settings.ofFields fields = .ok s) : Obtained s
  | ofEnvironment {environment : List (String × String)} {s : Settings}
      (h : Settings.ofEnvironment environment = .ok s) : Obtained s
  | tryAssign {s : Settings} (h : Obtained s) (field : String) (d : Datum) :
      Obtained (s.tryAssign field d).1

theorem Obtained.exists_fields (h : Obtained s) :
    ∃ fields, (names fields).Nodup ∧ Settings.ofFields fields = .ok s := by
  induction h with
  | ofFields hdistinct h => exact ⟨_, hdistinct, h⟩
  | @ofEnvironment environment s h =>
      have hnames := namesSettings_environmentFields environment
      exact ⟨_, hnames.distinct, hnames.ofEnvironment_eq_ok_iff.mp h⟩
  | tryAssign h field d ih => exact ih

/-- Settings come from named values that are acceptable, their threshold is a number between
zero and one, and every solver that is made from them has it. -/
structure Enforced (s : Settings) : Prop where
  bounds : 0 < s.threshold.val ∧ s.threshold.val < 1
  isFinite : s.threshold.val.isFinite = true
  given : ∃ fields, Acceptable fields ∧ Holds fields s
  exists_solver_iff : ∀ installed, (∃ solver, LinearSolver.ofSettings installed s = .ok solver) ↔
    (s.nativeMath = true → installed = true)
  selects : ∀ installed solver, LinearSolver.ofSettings installed s = .ok solver →
    Selects s solver

theorem Obtained.enforced (h : Obtained s) : Enforced s := by
  obtain ⟨fields, hdistinct, hmade⟩ := h.exists_fields
  have hacceptable := (exists_ofFields_iff hdistinct).mp ⟨s, hmade⟩
  have hholds := ((ofFields_eq_ok_iff_holds hdistinct).mp hmade).2
  have hbounds := s.threshold.property
  exact ⟨hbounds, Number.isFinite_of_bounds hbounds.1 hbounds.2, ⟨fields, hacceptable, hholds⟩,
    fun _ => LinearSolver.exists_ofSettings_iff, fun _ _ => selects_of_ofSettings⟩

/-- **No threshold is out of bounds.**  Settings are made of named values exactly if these are
acceptable, and have their values.  Otherwise all fields that are wrong are refused, in order.
NaNs and infinities are among what is refused.  All settings that there are have a threshold
between zero and one, and the solver made from them has it and the backend that they select. -/
theorem thresholds_within_bounds (hdistinct : (names fields).Nodup) :
    ((∃ s, ofFields fields = .ok s) ↔ Acceptable fields) ∧
      (∀ s, ofFields fields = .ok s → Holds fields s) ∧
      (∀ first rest, ofFields fields = .error (first, rest) → Lists fields (first :: rest)) ∧
      (∀ (d : Datum) t, d.ratio = .ok t → t.isFinite = false →
        ∃ cause, Setting.singularityThreshold.Refuses d cause) ∧
      ∀ s, Obtained s → Enforced s := by
  refine ⟨exists_ofFields_iff hdistinct, ?_, ?_, ?_, ?_⟩
  · intro s hmade
    exact ((ofFields_eq_ok_iff_holds hdistinct).mp hmade).2
  · intro first rest hrefused
    exact lists_of_ofFields hdistinct hrefused
  · intro d t hratio hfinite
    exact Datum.refuses_of_not_finite hratio hfinite
  · intro s hobtained
    exact hobtained.enforced

/-- A NaN as a cutoff and a name that is none are refused, in this order, and the switch between
them is not.  The defaults are still in force when someone has tried to change them. -/
theorem thresholds_within_bounds_nan :
    let fields : Fields := [("speed", .null), ("native_math", .text "YES"),
      ("singularity_threshold", .text "nan")]
    (names fields).Nodup ∧
      (∃ first second, ofFields fields = .error (first, [second]) ∧
        Lists fields [first, second] ∧ first.field = "singularity_threshold" ∧
        second.field = "speed") ∧
      Obtained (Settings.tryAssign {} "singularity_threshold" (.int 7)).1 ∧
      Enforced {} := by
  intro fields
  have hdistinct : (names fields).Nodup := by decide
  have hflag : (Datum.text "YES").flag = .ok true := by decide +kernel
  have hcutoff : (Datum.text "nan").cutoff = .error .lessThan := rfl
  have hrefused : ofFields fields =
      .error (⟨"singularity_threshold", .lessThan⟩, [⟨"speed", .unknownName⟩]) := by
    have hnativeMath : readField .nativeMath Datum.flag false fields = .ok true :=
      congrArg (Except.mapError _) hflag
    have hthreshold : readField .singularityThreshold Datum.cutoff Cutoff.default fields =
        .error ⟨"singularity_threshold", .lessThan⟩ := congrArg (Except.mapError _) hcutoff
    unfold ofFields
    rw [hnativeMath, hthreshold]
    rfl
  have hobtained : Obtained (Settings.tryAssign {} "singularity_threshold" (.int 7)).1 :=
    .tryAssign (@Obtained.ofFields [] {} List.nodup_nil rfl) _ _
  have hall := thresholds_within_bounds hdistinct
  exact ⟨hdistinct, ⟨_, _, hrefused, hall.2.2.1 _ _ hrefused, rfl, rfl⟩, hobtained,
    hall.2.2.2.2 _ hobtained⟩

end Settings

end LeastSquares
