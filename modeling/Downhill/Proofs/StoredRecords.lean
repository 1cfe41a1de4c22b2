import Downhill.Problem.Dataset
import Downhill.Proofs.AcceptedOptions
import Downhill.Proofs.NumberOrder
import Downhill.Proofs.StoredTraces
import Downhill.Stored.Comparison
import Downhill.Stored.Options

/-!
# Plain records read back

Options, summaries of runs and datasets are stored as plain records, in which a number that is not
finite turns into null. Null is not read as a number, so one such number makes a whole record
unreadable. The checks before a run and those of a dataset let some of them pass, and a run that
diverges leaves them in its summary. Its trace, where they are stored under names, is read back.

`ReadsBackIf` says of a stored value when it comes back, and that it is refused otherwise.
`records_read_back_if_finite` says it of all options that are accepted, of the summaries of all runs
and of all datasets.
-/

namespace Downhill

/-- A value that is read back as it was if a condition holds, and is refused for its form if not. -/
structure ReadsBackIf {α : Type} (write : α → Json) (read : Json → Except Fault α) (a : α)
    (p : Prop) : Prop where
  kept : p → read (write a) = .ok a
  refused : ¬ p → read (write a) = .error .shape

namespace ReadsBackIf

variable {α : Type} {write : α → Json} {read : Json → Except Fault α} {a : α} {p q : Prop}

lemma congr (h : ReadsBackIf write read a p) (hpq : p ↔ q) : ReadsBackIf write read a q :=
  propext hpq ▸ h

lemma always (h : ReadsBack write read) (a : α) : ReadsBackIf write read a True :=
  ⟨fun _ => h a, fun hfalse => absurd trivial hfalse⟩

/-- One item that is refused is enough for a list to be refused. -/
lemma list {good : α → Prop} (h : ∀ a, ReadsBackIf write read a (good a)) (items : List α) :
    ReadsBackIf (Json.ofList write) (Json.asList read) items (∀ a ∈ items, good a) := by
  suffices hitems : ((∀ a ∈ items, good a) → (items.map write).mapM read = .ok items) ∧
      ((¬ ∀ a ∈ items, good a) → (items.map write).mapM read = .error .shape) from
    ⟨hitems.1, hitems.2⟩
  -- Reading goes from the front, and the first item that is refused ends it.
  induction items with
  | nil => exact ⟨fun _ => rfl, fun hbad => absurd (List.forall_mem_nil good) hbad⟩
  | cons x items ih =>
    rw [List.forall_mem_cons, List.map_cons, List.mapM_cons]
    by_cases hx : good x
    · rw [(h x).kept hx]
      by_cases hitems : ∀ a ∈ items, good a
      · rw [ih.1 hitems]
        exact ⟨fun _ => rfl, fun hbad => absurd ⟨hx, hitems⟩ hbad⟩
      · rw [ih.2 hitems]
        exact ⟨fun hgood => absurd hgood.2 hitems, fun _ => rfl⟩
    · rw [(h x).refused hx]
      exact ⟨fun hgood => absurd hgood.1 hx, fun _ => rfl⟩

end ReadsBackIf

namespace Fields

variable {α β : Type} {members : List (String × Json)} {p q : Prop}

/-- Some field of an object, whose names all differ, is of the wrong form. -/
def Refuses (members : List (String × Json)) (fields : Fields α) : Prop :=
  (members.map Prod.fst).Nodup → ∃ place, fields members = .error (place, .shape)

/-- Fields that read as a value if a condition holds, and are refused if not. -/
structure GivesIf (members : List (String × Json)) (fields : Fields α) (p : Prop) (a : α) :
    Prop where
  gives : p → Gives members fields a
  refuses : ¬ p → Refuses members fields

namespace GivesIf

/-- Whichever of two faults stands first, it is the same fault. -/
lemma seq {f : Fields (α → β)} {x : Fields α} {g : α → β} {a : α} (hf : GivesIf members f p g)
    (hx : GivesIf members x q a) : GivesIf members (f <*> x) (p ∧ q) (g a) := by
  refine ⟨fun ⟨hp, hq⟩ => (hf.gives hp).seq (hx.gives hq), fun hpq hnames => ?_⟩
  change ∃ place, Fields.seq f x members = _
  by_cases hp : p
  · obtain ⟨place, hplace⟩ := hx.refuses (fun hq => hpq ⟨hp, hq⟩) hnames
    rw [Fields.seq, hf.gives hp hnames, hplace]
    exact ⟨place, rfl⟩
  · obtain ⟨place, hplace⟩ := hf.refuses hp hnames
    by_cases hq : q
    · rw [Fields.seq, hplace, hx.gives hq hnames]
      exact ⟨place, rfl⟩
    · obtain ⟨place', hplace'⟩ := hx.refuses hq hnames
      rw [Fields.seq, hplace, hplace']
      dsimp only [earlier]
      split_ifs
      · exact ⟨place', rfl⟩
      · exact ⟨place, rfl⟩

variable {write : α → Json} {read : Json → Except Fault α} {name : String} {a : α}

lemma member (h : ReadsBackIf write read a p) (hmem : (name, write a) ∈ members) :
    GivesIf members (Fields.member name read) p a := by
  refine ⟨fun hp => .member (h.kept hp) hmem, fun hp hnames => ?_⟩
  obtain ⟨found, hfound⟩ := occurrences_of_mem hnames hmem 0
  refine ⟨found, ?_⟩
  rw [Fields.member, Fields.member?, hfound]
  dsimp only
  rw [h.refused hp]

lemma first (f : α → β) (h : ReadsBackIf write read a p) (hmem : (name, write a) ∈ members) :
    GivesIf members (f <$> Fields.member name read) p (f a) := by
  have hpure : GivesIf members (pure f : Fields (α → β)) True f :=
    ⟨fun _ => .pure f, fun hfalse => absurd trivial hfalse⟩
  have hseq := hpure.seq (member h hmem)
  rwa [true_and] at hseq

lemma next {f : Fields (α → β)} {g : α → β} (hf : GivesIf members f p g)
    (h : ReadsBackIf write read a q) (hmem : (name, write a) ∈ members) :
    GivesIf members (f <*> Fields.member name read) (p ∧ q) (g a) :=
  hf.seq (member h hmem)

/-- An object with these fields is what a record is stored as. -/
lemma record {fields : Fields α} (h : GivesIf members fields p a)
    (hread : read (write a) = fields.read (.object members))
    (hnames : (members.map Prod.fst).Nodup) : ReadsBackIf write read a p := by
  refine ⟨fun hp => hread.trans ((h.gives hp).read hnames), fun hp => hread.trans ?_⟩
  obtain ⟨place, hplace⟩ := h.refuses hp hnames
  simp only [Fields.read, hplace]

end GivesIf

end Fields

open Stored Fields

/-! ### Numbers -/

/-- Faithful arithmetic that is finite where the doubles are, and whose special values compare as
theirs do. -/
class PlainBinary (F : Type) [Binary F] : Prop extends FaithfulBinary F where
  isFinite_toDouble (x : F) : (Binary.toDouble x).isFinite = Arithmetic.isFinite x
  isFinite_of_lt_of_lt : ∀ {x y z : F}, x < y → y < z → Arithmetic.isFinite y = true
  isFinite_infinity : Arithmetic.isFinite (Arithmetic.infinity : F) = false
  isNaN_nan : Arithmetic.isNaN (0 / 0 : F) = true
  neg_infinity_lt_zero : -(Arithmetic.infinity : F) < 0

section Unpacked

open Float.Model

/-- Above infinity there is nothing, and nothing is below its opposite. -/
lemma unpacked_isFinite_of_lt_of_lt {a b c : UnpackedFloat} (hab : a.lt b = true)
    (hbc : b.lt c = true) : b.isFinite = true := by
  cases b with
  | zero | finite => rfl
  | notANumber => cases hbc
  | infinity s =>
    cases s with
    | positive => rcases c with ⟨_ | _⟩ | _ | _ | ⟨_ | _, m, e, _⟩ <;> cases hbc
    | negative => rcases a with ⟨_ | _⟩ | _ | _ | ⟨_ | _, m, e, _⟩ <;> cases hab

end Unpacked

instance : PlainBinary Float where
  isFinite_toDouble _ := rfl
  isFinite_of_lt_of_lt {x y z} hxy hyz := by
    rw [double_lt_iff] at hxy hyz
    exact unpacked_isFinite_of_lt_of_lt hxy hyz
  isFinite_infinity := by decide +kernel
  isNaN_nan := by decide +kernel
  neg_infinity_lt_zero := by decide +kernel

instance : PlainBinary Float32 where
  isFinite_toDouble := isFinite_widen
  isFinite_of_lt_of_lt {x y z} hxy hyz := by
    rw [single_lt_iff] at hxy hyz
    exact unpacked_isFinite_of_lt_of_lt hxy hyz
  isFinite_infinity := by decide +kernel
  isNaN_nan := by decide +kernel
  neg_infinity_lt_zero := by decide +kernel

section Records

variable {F : Type} [Binary F]

structure Tolerances.IsFinite (t : Tolerances F) : Prop where
  gtol : Arithmetic.isFinite t.gtol = true
  ftol : Arithmetic.isFinite t.ftol = true
  xtol : Arithmetic.isFinite t.xtol = true

structure Options.IsFinite (o : Options F) : Prop where
  initialPoint : ∀ x ∈ o.initialPoint, Arithmetic.isFinite x = true
  alpha : Arithmetic.isFinite o.alpha = true
  c1 : Arithmetic.isFinite o.c1 = true
  hessianDamping : Arithmetic.isFinite o.hessianDamping = true
  termination : o.termination.IsFinite

structure RunSummary.IsFinite (s : RunSummary F) : Prop where
  finalLoss : Arithmetic.isFinite s.finalLoss = true
  finalPoint : ∀ x ∈ s.finalPoint, Arithmetic.isFinite x = true
  finalGradNorm : Arithmetic.isFinite s.finalGradNorm = true

structure DataPoint.IsFinite (p : DataPoint F) : Prop where
  x1 : Arithmetic.isFinite p.x1 = true
  x2 : Arithmetic.isFinite p.x2 = true

variable [PlainBinary F]

lemma ReadsBackIf.plain (x : F) :
    ReadsBackIf ofPlain asPlain x (Arithmetic.isFinite x = true) := by
  have hfinite := PlainBinary.isFinite_toDouble x
  constructor
  · intro hx
    have hstored : ofPlain x = .number (Binary.toDouble x) := if_pos (hfinite.trans hx)
    rw [hstored, asPlain, FaithfulBinary.ofDouble_toDouble]
  · intro hx
    have hstored : ofPlain x = .null := if_neg (hfinite ▸ hx)
    rw [hstored]
    rfl

lemma LineSearchMode.readsBack : ReadsBack toJson ofJson :=
  .name fun m => by cases m <;> rfl

lemma asLabel_readsBack : ReadsBack (fun y : UInt8 => ofCount y.toNat) asLabel := by
  intro y
  have hcount : (ofCount y.toNat).asCount = .ok y.toNat := ReadsBack.count y.toNat
  have hlt : y.toNat < 256 := y.toNat_lt
  simp only [asLabel, hcount, bind, Except.bind, if_pos hlt]
  exact congrArg Except.ok (UInt8.ofNat_toNat)

open ReadsBackIf

lemma Tolerances.readsBackIf (t : Tolerances F) : ReadsBackIf toJson ofJson t t.IsFinite := by
  refine ReadsBackIf.congr (GivesIf.first mk (plain t.gtol) (by simp)
    |>.next (plain t.ftol) (by simp)
    |>.next (plain t.xtol) (by simp)
    |>.record rfl (by simp)) ?_
  exact ⟨fun ⟨⟨hgtol, hftol⟩, hxtol⟩ => ⟨hgtol, hftol, hxtol⟩, fun h => ⟨⟨h.gtol, h.ftol⟩, h.xtol⟩⟩

lemma Options.readsBackIf (o : Options F) : ReadsBackIf toJson ofJson o o.IsFinite := by
  refine ReadsBackIf.congr (GivesIf.first mk (always .count o.maxIter) (by simp)
    |>.next (list plain o.initialPoint) (by simp)
    |>.next (plain o.alpha) (by simp)
    |>.next (plain o.c1) (by simp)
    |>.next (always .count o.memory) (by simp)
    |>.next (plain o.hessianDamping) (by simp)
    |>.next (always LineSearchMode.readsBack o.lineSearch) (by simp)
    |>.next (always .count o.maxLineSearchTrials) (by simp)
    |>.next o.termination.readsBackIf (by simp)
    |>.record rfl (by simp)) ?_
  simp only [true_and, and_true]
  constructor
  · rintro ⟨⟨⟨⟨hpoint, halpha⟩, hc1⟩, hdamping⟩, htermination⟩
    exact ⟨hpoint, halpha, hc1, hdamping, htermination⟩
  · intro h
    exact ⟨⟨⟨⟨h.initialPoint, h.alpha⟩, h.c1⟩, h.hessianDamping⟩, h.termination⟩

lemma RunSummary.readsBackIf (s : RunSummary F) : ReadsBackIf toJson ofJson s s.IsFinite := by
  refine ReadsBackIf.congr (GivesIf.first mk (always .bool s.converged) (by simp)
    |>.next (always .count s.iterations) (by simp)
    |>.next (plain s.finalLoss) (by simp)
    |>.next (list plain s.finalPoint) (by simp)
    |>.next (plain s.finalGradNorm) (by simp)
    |>.record rfl (by simp)) ?_
  simp only [true_and]
  exact ⟨fun ⟨⟨hloss, hpoint⟩, hnorm⟩ => ⟨hloss, hpoint, hnorm⟩,
    fun h => ⟨⟨h.finalLoss, h.finalPoint⟩, h.finalGradNorm⟩⟩

lemma DataPoint.readsBackIf (p : DataPoint F) : ReadsBackIf toJson ofJson p p.IsFinite := by
  refine ReadsBackIf.congr (GivesIf.first mk (plain p.x1) (by simp)
    |>.next (plain p.x2) (by simp)
    |>.next (always asLabel_readsBack p.y) (by simp)
    |>.record rfl (by simp)) ?_
  simp only [and_true]
  exact ⟨fun ⟨h1, h2⟩ => ⟨h1, h2⟩, fun h => ⟨h.x1, h.x2⟩⟩

lemma Dataset.readsBackIf (d : Dataset F) :
    ReadsBackIf toJson ofJson d (∀ p ∈ d.points, p.IsFinite) :=
  GivesIf.first mk (list DataPoint.readsBackIf d.points) (by simp)
    |>.record rfl (by simp)

end Records

/-! ### What is accepted and reported -/

section Accepted

lemma Dataset.points_of_ofPoints {F : Type} {points : List (DataPoint F)} {d : Dataset F}
    (h : Dataset.ofPoints points = .ok d) : d.points = points := by
  unfold Dataset.ofPoints Dataset.validate at h
  split_ifs at h
  split at h
  · cases h
  · cases h
    rfl

variable {F : Type} [Binary F]

/-- What the checks before a run leave open: where it starts, infinite tolerances, and the numbers
that the method does not read. -/
structure Options.UncheckedAreFinite (o : Options F) (algorithm : Algorithm) : Prop where
  initialPoint : ∀ x ∈ o.initialPoint, Arithmetic.isFinite x = true
  alpha : algorithm ≠ .gradientDescent → Arithmetic.isFinite o.alpha = true
  c1 : algorithm.usesLineSearch o.lineSearch = false → Arithmetic.isFinite o.c1 = true
  hessianDamping : algorithm.needsHessian = false → Arithmetic.isFinite o.hessianDamping = true
  gtol : o.termination.gtol ≠ Arithmetic.infinity
  ftol : o.termination.ftol ≠ Arithmetic.infinity
  xtol : o.termination.xtol ≠ Arithmetic.infinity

/-- A record after which the value, the length of the gradient and all coordinates are finite. -/
structure IterationRecord.EndsFinite (r : IterationRecord F) : Prop where
  newLoss : Arithmetic.isFinite r.newLoss = true
  wNew : ∀ x ∈ r.wNew, Arithmetic.isFinite x = true
  newGradNorm : Arithmetic.isFinite r.newGradNorm = true

lemma RunSummary.isFinite_ofTrace_iff {trace : Trace F} {last : IterationRecord F}
    (h : trace.iterations.getLast? = some last) :
    (RunSummary.ofTrace trace).IsFinite ↔ last.EndsFinite := by
  have hsummary : RunSummary.ofTrace trace =
      ⟨trace.converged, trace.iterations.length, last.newLoss, last.wNew, last.newGradNorm⟩ := by
    simp only [RunSummary.ofTrace, Trace.finalLoss?, Trace.finalPoint?, Trace.finalGradNorm?, h,
      Option.map_some, Option.getD_some]
  rw [hsummary]
  exact ⟨fun h => ⟨h.finalLoss, h.finalPoint, h.finalGradNorm⟩,
    fun h => ⟨h.newLoss, h.wNew, h.newGradNorm⟩⟩

variable [PlainBinary F]

/-- No tolerance but infinity is accepted without being finite. -/
lemma Tolerances.isFinite_iff_of_isValid {tol : F} (h : isValid tol = true) :
    Arithmetic.isFinite tol = true ↔ tol ≠ Arithmetic.infinity := by
  rw [isValid, Bool.and_eq_true, Bool.not_eq_true', Bool.not_eq_true', decide_eq_false_iff_not] at h
  obtain ⟨hnan, hneg⟩ := h
  constructor
  · rintro hfinite rfl
    exact Bool.false_ne_true (PlainBinary.isFinite_infinity.symm.trans hfinite)
  · intro hne
    by_contra hinfinite
    have hdouble : (Binary.toDouble tol).isFinite = false :=
      (PlainBinary.isFinite_toDouble tol).trans (Bool.eq_false_iff.mpr hinfinite)
    rcases special_of_toDouble hdouble with ⟨-, rfl⟩ | ⟨-, ⟨-, rfl⟩ | ⟨-, rfl⟩⟩
    · exact Bool.false_ne_true (hnan.symm.trans PlainBinary.isNaN_nan)
    · exact hne rfl
    · exact hneg PlainBinary.neg_infinity_lt_zero

lemma Tolerances.isFinite_iff_of_fault? {t : Tolerances F} (h : t.fault? = none) :
    t.IsFinite ↔ t.gtol ≠ Arithmetic.infinity ∧ t.ftol ≠ Arithmetic.infinity ∧
      t.xtol ≠ Arithmetic.infinity := by
  simp only [fault?, ite_some_eq_none_iff, Bool.not_eq_true', Bool.not_eq_false] at h
  obtain ⟨hgtol, hftol, hxtol, -⟩ := h
  rw [← isFinite_iff_of_isValid hgtol, ← isFinite_iff_of_isValid hftol,
    ← isFinite_iff_of_isValid hxtol]
  constructor
  · intro h
    exact ⟨h.gtol, h.ftol, h.xtol⟩
  · rintro ⟨hgtol, hftol, hxtol⟩
    exact ⟨hgtol, hftol, hxtol⟩

/-- The checks before a run see to it that all numbers are finite but those that they leave open. -/
lemma Options.isFinite_iff_of_validate {o : Options F} {algorithm : Algorithm} {dim : Nat}
    {hasHessian : Bool} (h : o.validate algorithm dim hasHessian = .ok ()) :
    o.IsFinite ↔ o.UncheckedAreFinite algorithm := by
  have hpasses := validate_eq_ok_iff.mp h
  have htolerances := Tolerances.isFinite_iff_of_fault? hpasses.tolerances
  constructor
  · intro h
    obtain ⟨hgtol, hftol, hxtol⟩ := htolerances.mp h.termination
    exact ⟨h.initialPoint, fun _ => h.alpha, fun _ => h.c1, fun _ => h.hessianDamping, hgtol, hftol,
      hxtol⟩
  · intro h
    refine ⟨h.initialPoint, ?_, ?_, ?_, htolerances.mpr ⟨h.gtol, h.ftol, h.xtol⟩⟩
    · by_cases hfixed : algorithm = .gradientDescent
      · exact (hpasses.alpha hfixed).1
      · exact h.alpha hfixed
    · cases huses : algorithm.usesLineSearch o.lineSearch with
      | true =>
        obtain ⟨hpos, hlt⟩ := hpasses.c1 huses
        exact PlainBinary.isFinite_of_lt_of_lt hpos hlt
      | false => exact h.c1 huses
    · cases hneeds : algorithm.needsHessian with
      | true => exact (hpasses.damping hneeds).1
      | false => exact h.hessianDamping hneeds

lemma Options.readsBackIf_of_validate {o : Options F} {algorithm : Algorithm} {dim : Nat}
    {hasHessian : Bool} (h : o.validate algorithm dim hasHessian = .ok ()) :
    ReadsBackIf toJson ofJson o (o.UncheckedAreFinite algorithm) :=
  o.readsBackIf.congr (isFinite_iff_of_validate h)

/-- A run leaves a last record, and its summary is taken from there. -/
lemma RunSummary.readsBackIf_of_run {algorithm : Algorithm} {obj : Objective F} {o : Options F}
    {trace : Trace F} (h : run algorithm obj o = .ok trace) :
    ∃ last, trace.iterations.getLast? = some last ∧
      ReadsBackIf toJson ofJson (ofTrace trace) last.EndsFinite := by
  have hne : trace.iterations ≠ [] := List.ne_nil_of_length_pos (run_stoppedBy h).length_pos
  have hlast := List.getLast?_eq_some_getLast hne
  exact ⟨_, hlast, (ofTrace trace).readsBackIf.congr (isFinite_ofTrace_iff hlast)⟩

lemma Dataset.readsBackIf_of_ofPoints {points : List (DataPoint F)} {d : Dataset F}
    (h : ofPoints points = .ok d) : ReadsBackIf toJson ofJson d (∀ p ∈ points, p.IsFinite) :=
  points_of_ofPoints h ▸ d.readsBackIf

end Accepted

/-- Accepted options in both precisions, summaries of runs and accepted datasets are read back as they
were exactly if every number in them is finite, which is checked of some of the numbers only. -/
theorem records_read_back_if_finite (algorithm : Algorithm) (dim : Nat) (hasHessian : Bool)
    (o : Options Float) (o' : Options Float32) (obj : Objective Float)
    (points : List (DataPoint Float)) :
    (o.validate algorithm dim hasHessian = .ok () →
      ReadsBackIf Options.toJson Options.ofJson o (o.UncheckedAreFinite algorithm)) ∧
    (o'.validate algorithm dim hasHessian = .ok () →
      ReadsBackIf Options.toJson Options.ofJson o' (o'.UncheckedAreFinite algorithm)) ∧
    (∀ trace, run algorithm obj o = .ok trace → ∃ last, trace.iterations.getLast? = some last ∧
      ReadsBackIf RunSummary.toJson RunSummary.ofJson (.ofTrace trace) last.EndsFinite) ∧
    ∀ d, Dataset.ofPoints points = .ok d →
      ReadsBackIf Dataset.toJson Dataset.ofJson d (∀ p ∈ points, p.IsFinite) := by
  refine ⟨?_, ?_, ?_, ?_⟩
  · exact Options.readsBackIf_of_validate
  · exact Options.readsBackIf_of_validate
  · exact fun _ => RunSummary.readsBackIf_of_run
  · exact fun _ => Dataset.readsBackIf_of_ofPoints

/-- `divergingOptions` with steps that stay in range. -/
def shortStepOptions : Options Float :=
  { divergingOptions with alpha := 0.1 }

def nearPoint : DataPoint Float :=
  ⟨0.5, -2, 1⟩

theorem short_step_records_read_back :
    @Options.ofJson Float _ shortStepOptions.toJson = .ok shortStepOptions ∧
    (∃ trace, run .gradientDescent AnalyticProblem.saddle.objective shortStepOptions = .ok trace ∧
      @RunSummary.ofJson Float _ (RunSummary.ofTrace trace).toJson = .ok (.ofTrace trace)) ∧
    ∃ d, Dataset.ofPoints [nearPoint] = .ok d ∧ @Dataset.ofJson Float _ d.toJson = .ok d := by
  obtain ⟨hoptions, -, hsummaries, hdatasets⟩ := records_read_back_if_finite .gradientDescent 2 true
    shortStepOptions (Options.standard .single) AnalyticProblem.saddle.objective [nearPoint]
  have hanswer : (run .gradientDescent AnalyticProblem.saddle.objective
      shortStepOptions).toOption.map (fun t =>
        let s := RunSummary.ofTrace t
        (Arithmetic.isFinite s.finalLoss, s.finalPoint.all Arithmetic.isFinite,
          Arithmetic.isFinite s.finalGradNorm)) = some (true, true, true) := by
    decide +kernel
  obtain ⟨trace, hrun, hnumbers⟩ := exists_trace_of_toOption _ hanswer
  obtain ⟨hloss, hpoint, hnorm⟩ : Arithmetic.isFinite (RunSummary.ofTrace trace).finalLoss = true ∧
      (RunSummary.ofTrace trace).finalPoint.all Arithmetic.isFinite = true ∧
      Arithmetic.isFinite (RunSummary.ofTrace trace).finalGradNorm = true := by
    simpa only [Prod.mk.injEq] using hnumbers
  obtain ⟨last, hlast, hsummary⟩ := hsummaries trace hrun
  refine ⟨(hoptions (by decide +kernel)).kept ?_, ⟨trace, hrun, hsummary.kept ?_⟩, ⟨[nearPoint]⟩,
    rfl, (hdatasets _ rfl).kept ?_⟩
  · constructor <;> decide +kernel
  · exact (RunSummary.isFinite_ofTrace_iff hlast).mp ⟨hloss, List.all_eq_true.mp hpoint, hnorm⟩
  · intro p hp
    rw [List.mem_singleton.mp hp]
    constructor <;> decide +kernel

/-- Usual options that any length of the gradient satisfies. -/
def carelessOptions : Options Float :=
  { Options.standard ⟨Arithmetic.infinity, 0, 0⟩ with
    initialPoint := AnalyticProblem.saddle.initialPoint }

def farPoint : DataPoint Float :=
  ⟨Arithmetic.infinity, 0, 1⟩

/-- An infinite tolerance is accepted, a run may diverge, and a point of a dataset may lie at
infinity. None of the three is read back from what is stored of it. -/
theorem infinities_are_not_read_back :
    (carelessOptions.validate .newton 2 true = .ok () ∧
      @Options.ofJson Float _ carelessOptions.toJson = .error .shape) ∧
    (∃ trace, run .gradientDescent AnalyticProblem.saddle.objective divergingOptions = .ok trace ∧
      @RunSummary.ofJson Float _ (RunSummary.ofTrace trace).toJson = .error .shape) ∧
    ∃ d : Dataset Float, Dataset.ofPoints [farPoint] = .ok d ∧
      @Dataset.ofJson Float _ d.toJson = .error .shape := by
  refine ⟨⟨by decide +kernel, ?_⟩, ?_, ⟨[farPoint]⟩, rfl, ?_⟩
  · refine carelessOptions.readsBackIf.refused fun h => ?_
    exact absurd h.termination.gtol (by decide +kernel)
  · have hanswer : (run .gradientDescent AnalyticProblem.saddle.objective
        divergingOptions).toOption.map (fun t => Arithmetic.isFinite (RunSummary.ofTrace t).finalLoss) =
          some false := by
      decide +kernel
    obtain ⟨trace, hrun, hloss⟩ := exists_trace_of_toOption _ hanswer
    refine ⟨trace, hrun, (RunSummary.ofTrace trace).readsBackIf.refused fun h => ?_⟩
    exact Bool.false_ne_true (hloss.symm.trans h.finalLoss)
  · refine (Dataset.readsBackIf ⟨[farPoint]⟩).refused fun h => ?_
    exact absurd (h farPoint (List.mem_singleton_self _)).x1 (by decide +kernel)

end Downhill
