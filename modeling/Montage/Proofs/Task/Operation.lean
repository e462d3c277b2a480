import Montage.Task.Basic
import Montage.Proofs.Json.Record

/-!
# Operations of parts

What a type name and parameters make. The name decides which kind of parameters is read, and the
operation that is made is of that kind; under a name that no kind goes by the parameters are kept as
they are.
-/

namespace Montage

namespace Operation
variable {T : Type}

theorem typeName_of_kind? {op : Operation T} {k : Kind} (h : op.kind? = some k) :
    op.typeName = k.wireName := by
  cases op with
  | unrecognized name params => exact absurd h.symm (Option.some_ne_none k)
  | _ p =>
    cases h
    rfl

theorem exists_unrecognized {op : Operation T} (h : op.kind? = none) :
    ∃ name params, op = .unrecognized name params := by
  cases op with
  | unrecognized name params => exact ⟨name, params, rfl⟩
  | _ p => exact absurd h (Option.some_ne_none _)

theorem exists_overlayVideo {op : Operation T} (h : op.kind? = some .overlayVideo) :
    ∃ p, op = .overlayVideo p := by
  cases op with
  | overlayVideo p => exact ⟨p, rfl⟩
  | _ => simp [kind?] at h

variable [TimeScale T]

theorem kind?_of_readParams {k : Kind} {params : Json T} {op : Operation T}
    (h : readParams k params = .ok op) : op.kind? = some k := by
  cases k <;>
  · rcases exists_of_map_eq_ok h with ⟨p, -, rfl⟩
    rfl

/-- No parameters are the same as parameters without members. -/
theorem ofParts_null (typeName : String) :
    (ofParts typeName .null : Except (Flaw T) (Operation T)) = ofParts typeName (.object []) := by
  unfold ofParts
  dsimp only

/-- What was read makes an operation if it passes its check. -/
theorem checked_eq_ok_iff {made : Except (Misfit T) (Operation T)} {op : Operation T} :
    (match made with
      | .error m => .error (.misfit m)
      | .ok op => match op.flaw? with
        | some e => .error e
        | none => .ok op : Except (Flaw T) (Operation T)) = .ok op ↔
      made = .ok op ∧ op.flaw? = none := by
  cases made with
  | error m => simp
  | ok made =>
    cases hflaw : made.flaw? with
    | some e =>
      have hbad : made = op → op.flaw? ≠ none := by
        rintro rfl
        simp [hflaw]
      simpa [hflaw] using hbad
    | none =>
      have hgood : made = op → op.flaw? = none := by
        rintro rfl
        exact hflaw
      simpa [hflaw] using hgood

/-- What parts make an operation, and which one they make. -/
theorem ofParts_eq_ok_iff {typeName : String} {params : Json T} {op : Operation T}
    (hparams : params ≠ .null) : ofParts typeName params = .ok op ↔
      (Kind.ofName? typeName = none ∧ op = .unrecognized typeName params) ∨
      ∃ k, Kind.ofName? typeName = some k ∧ readParams k params = .ok op ∧ op.flaw? = none := by
  unfold ofParts
  cases params with
  | null => exact absurd rfl hparams
  | _ =>
    dsimp only
    cases Kind.ofName? typeName with
    | none => simp [eq_comm]
    | some k => exact checked_eq_ok_iff.trans (by simp)

end Operation

end Montage
