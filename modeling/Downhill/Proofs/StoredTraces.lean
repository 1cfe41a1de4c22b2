import Downhill.Proofs.Narrowing
import Downhill.Stored.Trace

/-!
# Stored traces read back

Writing a trace as a JSON value and reading that value is the identity, for a trace and for everything
in it. A reader undoes its writer, and the ways in which larger values are put together keep that:
lists, values that may be missing, and the members of an object, as long as their names differ.
-/

namespace Downhill

/-- What is written can be read, and is what it was. -/
def ReadsBack {α : Type} (write : α → Json) (read : Json → Except Fault α) : Prop :=
  ∀ a, read (write a) = .ok a

section Values

variable {α β : Type} {write : α → Json} {read : Json → Except Fault α}

lemma mapM_map_eq_ok {γ : Type} {write : α → β} {read : β → Except Fault γ} {value : α → γ}
    (h : ∀ a, read (write a) = .ok (value a)) (items : List α) :
    (items.map write).mapM read = .ok (items.map value) := by
  have hread : read ∘ write = fun a => pure (value a) := funext h
  rw [List.mapM_map, hread, List.mapM_pure]
  rfl

lemma asList_ofList {read : Json → Except Fault β} {value : α → β}
    (h : ∀ a, read (write a) = .ok (value a)) (items : List α) :
    Json.asList read (Json.ofList write items) = .ok (items.map value) :=
  mapM_map_eq_ok h items

namespace ReadsBack

lemma list (h : ReadsBack write read) : ReadsBack (Json.ofList write) (Json.asList read) := by
  intro items
  have hitems : Json.asList read (Json.ofList write items) = .ok (items.map id) :=
    asList_ofList h items
  rwa [List.map_id] at hitems

/-- Null stands for a missing value, so nothing else may be written as null. -/
lemma option (h : ReadsBack write read) (hnull : ∀ a, write a ≠ .null) :
    ReadsBack (Json.ofOption write) (Json.asOption read) := by
  intro a
  cases a with
  | none => rfl
  | some a =>
    unfold Json.ofOption Json.asOption
    split
    · rename_i heq
      exact absurd heq (hnull a)
    · rw [h a]
      rfl

lemma count : ReadsBack Stored.ofCount Json.asCount := by
  intro n
  simp only [Stored.ofCount, Json.asCount, Int.natCast_nonneg, if_true, Int.toNat_natCast]

lemma bool : ReadsBack Json.bool Json.asBool :=
  fun _ => rfl

/-- A choice is found again by its name if no choice before it has that name. -/
lemma name {all : List α} {name : α → String}
    (h : ∀ a, (all.find? fun b => name b = name a) = some a) :
    ReadsBack (fun a => .string (name a)) fun value => value.asName all name := by
  intro a
  simp only [Json.asName, Json.asChoice, bind, Except.bind, h a]

end ReadsBack

end Values

namespace Fields

variable {α β : Type} {members : List (String × Json)}

lemma occurrences_eq_nil {name : String} (h : name ∉ members.map Prod.fst) (place : Nat) :
    occurrences name place members = [] := by
  induction members generalizing place with
  | nil => rfl
  | cons m members ih =>
    rw [List.map_cons, List.mem_cons, not_or] at h
    rw [occurrences, if_neg (Ne.symm h.1), ih h.2]

lemma occurrences_of_mem (hnames : (members.map Prod.fst).Nodup) {name : String} {value : Json}
    (hmem : (name, value) ∈ members) (place : Nat) :
    ∃ found, occurrences name place members = [(found, value)] := by
  induction members generalizing place with
  | nil => cases hmem
  | cons m members ih =>
    obtain ⟨hfirst, hrest⟩ := List.nodup_cons.mp hnames
    rcases List.mem_cons.mp hmem with rfl | hmem
    · rw [occurrences, if_pos rfl, occurrences_eq_nil hfirst]
      exact ⟨place, rfl⟩
    · have hne : m.1 ≠ name := by
        rintro rfl
        exact hfirst (List.mem_map.mpr ⟨_, hmem, rfl⟩)
      rw [occurrences, if_neg hne]
      exact ih hrest hmem (place + 1)

/-- The fields of an object, whose names all differ, read as a value. -/
def Gives (members : List (String × Json)) (fields : Fields α) (a : α) : Prop :=
  (members.map Prod.fst).Nodup → fields members = .ok a

namespace Gives

lemma pure (a : α) : Gives members (Pure.pure a) a :=
  fun _ => rfl

lemma seq {f : Fields (α → β)} {x : Fields α} {g : α → β} {a : α} (hf : Gives members f g)
    (hx : Gives members x a) : Gives members (f <*> x) (g a) := by
  intro hnames
  change Fields.seq f x members = _
  rw [Fields.seq, hf hnames, hx hnames]

lemma map {x : Fields α} {a : α} (f : α → β) (hx : Gives members x a) :
    Gives members (f <$> x) (f a) :=
  seq (pure f) hx

lemma read {fields : Fields α} {a : α} (h : Gives members fields a)
    (hnames : (members.map Prod.fst).Nodup) : fields.read (.object members) = .ok a := by
  have hfields : fields members = .ok a := h hnames
  simp only [Fields.read, hfields]

variable {write : α → Json} {read : Json → Except Fault α} {name : String}

lemma member? {value : Json} {a : α} (h : read value = .ok a) (hmem : (name, value) ∈ members) :
    Gives members (Fields.member? name read) (some a) := by
  intro hnames
  obtain ⟨found, hfound⟩ := occurrences_of_mem hnames hmem 0
  rw [Fields.member?, hfound]
  dsimp only
  rw [h]

lemma member {value : Json} {a : α} (h : read value = .ok a) (hmem : (name, value) ∈ members) :
    Gives members (Fields.member name read) a := by
  intro hnames
  rw [Fields.member, member? h hmem hnames]

lemma first (f : α → β) (h : ReadsBack write read) (a : α) (hmem : (name, write a) ∈ members) :
    Gives members (f <$> Fields.member name read) (f a) :=
  map f (member (h a) hmem)

lemma next {f : Fields (α → β)} {g : α → β} (hf : Gives members f g) (h : ReadsBack write read)
    (a : α) (hmem : (name, write a) ∈ members) :
    Gives members (f <*> Fields.member name read) (g a) :=
  seq hf (member (h a) hmem)

lemma nextOptional {f : Fields (Option α → β)} {g : Option α → β} (hf : Gives members f g)
    (h : ReadsBack write read) (hnull : ∀ a, write a ≠ .null) (a : Option α)
    (hmem : (name, Json.ofOption write a) ∈ members) :
    Gives members (f <*> optionalMember name read) (g a) :=
  seq hf (map Option.join (member? (h.option hnull a) hmem))

end Gives

end Fields

open Stored Fields

section Numbers

variable {F : Type} [Binary F]

/-- What a number of a trace is stored as, before it is written. -/
def Stored.token (x : F) : Token :=
  let d := Binary.toDouble x
  if d.isFinite then .value d
  else if d.isNaN then .name "NaN"
  else if 0 < d then .name "inf"
  else .name "-inf"

lemma Stored.ofJson_ofNumber (x : F) : Token.ofJson (ofNumber x) = .ok (token x) := by
  unfold ofNumber token
  dsimp only
  split_ifs <;> rfl

lemma Stored.ofNumber_ne_null (x : F) : ofNumber x ≠ .null := by
  unfold ofNumber
  dsimp only
  split_ifs <;> nofun

variable [FaithfulBinary F]

/-- Each of the special doubles has a name of its own, and comes from one number. -/
lemma Stored.toNumber_token (x : F) : (token x).toNumber = .ok x := by
  unfold token
  dsimp only
  by_cases hfinite : (Binary.toDouble x).isFinite = true
  · rw [if_pos hfinite, Token.toNumber, FaithfulBinary.ofDouble_toDouble]
  · rw [if_neg hfinite]
    rcases special_of_toDouble (Bool.eq_false_iff.mpr hfinite) with
      ⟨hnan, hx⟩ | ⟨hnan, ⟨hpos, hx⟩ | ⟨hneg, hx⟩⟩
    · rw [if_pos hnan, hx]
      rfl
    · rw [if_neg (ne_true_of_eq_false hnan), if_pos hpos, hx]
      rfl
    · rw [if_neg (ne_true_of_eq_false hnan), if_neg hneg, hx]
      rfl

namespace ReadsBack

lemma number : ReadsBack (ofNumber : F → Json) asNumber := by
  intro x
  rw [asNumber, ofJson_ofNumber]
  exact toNumber_token x

lemma tokens (v : List F) : (v.map token).mapM Token.toNumber = .ok v := by
  have hitems : (v.map token).mapM Token.toNumber = .ok (v.map id) :=
    mapM_map_eq_ok toNumber_token v
  rwa [List.map_id] at hitems

lemma vector : ReadsBack (ofVector : List F → Json) asVector := by
  intro v
  rw [asVector, ofVector, asList_ofList ofJson_ofNumber]
  exact tokens v

lemma rows : ReadsBack (ofRows : List (List F) → Json) asRows := by
  intro a
  have htokens : ∀ v : List F, Json.asList Token.ofJson (ofVector v) = .ok (v.map token) :=
    asList_ofList ofJson_ofNumber
  have hitems : (a.map fun v => v.map token).mapM (fun row => row.mapM Token.toNumber) =
      .ok (a.map id) := mapM_map_eq_ok tokens a
  rw [List.map_id] at hitems
  rw [asRows, ofRows, asList_ofList htokens]
  exact hitems

end ReadsBack

end Numbers

section Names

lemma Algorithm.readsBack : ReadsBack toJson ofJson :=
  .name fun a => by cases a <;> rfl

lemma TerminationReason.readsBack : ReadsBack toJson ofJson :=
  .name fun r => by cases r <;> rfl

lemma MemoryUpdate.readsBack : ReadsBack toJson ofJson :=
  .name fun u => by cases u <;> rfl

end Names

section Records

variable {F : Type} [Binary F]

/-- A choice with content is not taken for one without, as its content is not null. -/
lemma asChoice_object {name : String} {content : Json} (h : content ≠ .null) :
    Json.asChoice (.object [(name, content)]) = .ok (name, some content) := by
  unfold Json.asChoice
  split <;> simp_all

lemma SolveMethod.toJson_ne_null (m : SolveMethod F) : m.toJson ≠ .null := by
  cases m <;> nofun

variable [FaithfulBinary F]

open ReadsBack

lemma SolveMethod.readsBack : ReadsBack (toJson : SolveMethod F → Json) ofJson := by
  intro m
  cases m with
  | cholesky => rfl
  | lu => rfl
  | regularized shift =>
    exact Gives.first regularized number shift (List.mem_singleton_self _)
      |>.read (List.nodup_singleton _)

lemma DirectionSource.readsBack : ReadsBack (toJson : DirectionSource F → Json) ofJson := by
  intro s
  cases s with
  | solve m =>
    have hchoice : Json.asChoice (.object [("Solve", m.toJson)]) = .ok ("Solve", some m.toJson) :=
      asChoice_object m.toJson_ne_null
    simp only [ofJson, toJson, hchoice, bind, Except.bind, SolveMethod.readsBack m]
    rfl
  | preconditioner n =>
    have hread : (preconditioner <$> member "fallback_entries" Json.asCount :
        Fields (DirectionSource F)).read (.object [("fallback_entries", ofCount n)]) =
          .ok (preconditioner n) :=
      Gives.first preconditioner count n (List.mem_singleton_self _)
        |>.read (List.nodup_singleton _)
    exact hread
  | steepestDescentFallback => rfl

lemma LineSearchTrial.readsBack : ReadsBack (toJson : LineSearchTrial F → Json) ofJson := by
  intro t
  exact Gives.first mk number t.alpha (by simp)
    |>.next number t.loss (by simp)
    |>.next number t.threshold (by simp)
    |>.next bool t.satisfied (by simp)
    |>.read (by simp)

lemma LineSearchLog.readsBack : ReadsBack (toJson : LineSearchLog F → Json) ofJson := by
  intro l
  exact Gives.first mk LineSearchTrial.readsBack.list l.trials (by simp)
    |>.next bool l.satisfied (by simp)
    |>.read (by simp)

lemma CurvatureDiagnostics.readsBack :
    ReadsBack (toJson : CurvatureDiagnostics F → Json) ofJson := by
  intro c
  have hvector : ReadsBack (Json.ofOption (ofVector : List F → Json)) (Json.asOption asVector) :=
    vector.option fun _ => nofun
  have hnumber : ReadsBack (Json.ofOption (ofNumber : F → Json)) (Json.asOption asNumber) :=
    number.option ofNumber_ne_null
  exact Gives.first mk rows c.hessian (by simp)
    |>.next hvector c.eigenvalues (by simp)
    |>.next hnumber c.conditionNumber (by simp)
    |>.next number c.damping (by simp)
    |>.next DirectionSource.readsBack c.source (by simp)
    |>.next hvector c.preconditioner (by simp)
    |>.read (by simp)

lemma CurvaturePair.readsBack : ReadsBack (toJson : CurvaturePair F → Json) ofJson := by
  intro p
  exact Gives.first mk vector p.s (by simp)
    |>.next vector p.y (by simp)
    |>.next number p.rho (by simp)
    |>.read (by simp)

lemma TwoLoopStep.readsBack : ReadsBack (toJson : TwoLoopStep F → Json) ofJson := by
  intro s
  exact Gives.first mk count s.pair (by simp)
    |>.next number s.coefficient (by simp)
    |>.next ReadsBack.vector s.vector (by simp)
    |>.read (by simp)

lemma TwoLoopDiagnostics.readsBack :
    ReadsBack (toJson : TwoLoopDiagnostics F → Json) ofJson := by
  intro d
  exact Gives.first mk TwoLoopStep.readsBack.list d.backward (by simp)
    |>.next number d.gamma (by simp)
    |>.next TwoLoopStep.readsBack.list d.forward (by simp)
    |>.read (by simp)

lemma LbfgsDiagnostics.readsBack : ReadsBack (toJson : LbfgsDiagnostics F → Json) ofJson := by
  intro d
  exact Gives.first mk CurvaturePair.readsBack.list d.memory (by simp)
    |>.nextOptional TwoLoopDiagnostics.readsBack (fun _ => nofun) d.twoLoop (by simp)
    |>.next MemoryUpdate.readsBack d.update (by simp)
    |>.read (by simp)

lemma IterationRecord.readsBack : ReadsBack (toJson : IterationRecord F → Json) ofJson := by
  intro r
  exact Gives.first mk count r.index (by simp)
    |>.next vector r.wOld (by simp)
    |>.next vector r.wNew (by simp)
    |>.next number r.loss (by simp)
    |>.next number r.newLoss (by simp)
    |>.next vector r.gradient (by simp)
    |>.next number r.gradNorm (by simp)
    |>.next number r.newGradNorm (by simp)
    |>.next vector r.direction (by simp)
    |>.next number r.stepSize (by simp)
    |>.nextOptional LineSearchLog.readsBack (fun _ => nofun) r.lineSearch (by simp)
    |>.nextOptional CurvatureDiagnostics.readsBack (fun _ => nofun) r.curvature (by simp)
    |>.nextOptional LbfgsDiagnostics.readsBack (fun _ => nofun) r.lbfgs (by simp)
    |>.read (by simp)

lemma EvaluationCounts.readsBack : ReadsBack toJson ofJson := by
  intro c
  exact Gives.first mk count c.objective (by simp)
    |>.next count c.gradient (by simp)
    |>.next count c.hessian (by simp)
    |>.read (by simp)

lemma Trace.readsBack : ReadsBack (toJson : Trace F → Json) ofJson := by
  intro t
  exact Gives.first mk Algorithm.readsBack t.algorithm (by simp)
    |>.next IterationRecord.readsBack.list t.iterations (by simp)
    |>.next TerminationReason.readsBack t.termination (by simp)
    |>.next EvaluationCounts.readsBack t.evaluations (by simp)
    |>.read (by simp)

end Records

/-- Everything in a trace over `F` is read back from its stored form. -/
structure TracesReadBack (F : Type) [Binary F] : Prop where
  algorithm : ReadsBack Algorithm.toJson Algorithm.ofJson
  lineSearchTrial : ReadsBack (@LineSearchTrial.toJson F _) LineSearchTrial.ofJson
  lineSearchLog : ReadsBack (@LineSearchLog.toJson F _) LineSearchLog.ofJson
  solveMethod : ReadsBack (@SolveMethod.toJson F _) SolveMethod.ofJson
  directionSource : ReadsBack (@DirectionSource.toJson F _) DirectionSource.ofJson
  curvatureDiagnostics : ReadsBack (@CurvatureDiagnostics.toJson F _) CurvatureDiagnostics.ofJson
  curvaturePair : ReadsBack (@CurvaturePair.toJson F _) CurvaturePair.ofJson
  twoLoopStep : ReadsBack (@TwoLoopStep.toJson F _) TwoLoopStep.ofJson
  twoLoopDiagnostics : ReadsBack (@TwoLoopDiagnostics.toJson F _) TwoLoopDiagnostics.ofJson
  memoryUpdate : ReadsBack MemoryUpdate.toJson MemoryUpdate.ofJson
  lbfgsDiagnostics : ReadsBack (@LbfgsDiagnostics.toJson F _) LbfgsDiagnostics.ofJson
  iterationRecord : ReadsBack (@IterationRecord.toJson F _) IterationRecord.ofJson
  terminationReason : ReadsBack TerminationReason.toJson TerminationReason.ofJson
  evaluationCounts : ReadsBack EvaluationCounts.toJson EvaluationCounts.ofJson
  trace : ReadsBack (@Trace.toJson F _) Trace.ofJson

lemma tracesReadBack_of_faithful {F : Type} [Binary F] [FaithfulBinary F] : TracesReadBack F where
  algorithm := Algorithm.readsBack
  lineSearchTrial := LineSearchTrial.readsBack
  lineSearchLog := LineSearchLog.readsBack
  solveMethod := SolveMethod.readsBack
  directionSource := DirectionSource.readsBack
  curvatureDiagnostics := CurvatureDiagnostics.readsBack
  curvaturePair := CurvaturePair.readsBack
  twoLoopStep := TwoLoopStep.readsBack
  twoLoopDiagnostics := TwoLoopDiagnostics.readsBack
  memoryUpdate := MemoryUpdate.readsBack
  lbfgsDiagnostics := LbfgsDiagnostics.readsBack
  iterationRecord := IterationRecord.readsBack
  terminationReason := TerminationReason.readsBack
  evaluationCounts := EvaluationCounts.readsBack
  trace := Trace.readsBack

/-- Traces in both precisions survive being stored, whatever numbers they hold. Numbers are equal only
if their bit patterns are, and each precision has one value that is no number. -/
theorem traces_read_back : TracesReadBack Float ∧ TracesReadBack Float32 :=
  ⟨tracesReadBack_of_faithful, tracesReadBack_of_faithful⟩

end Downhill
