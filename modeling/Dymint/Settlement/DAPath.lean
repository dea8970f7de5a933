import Dymint.Core.Decimal
import Dymint.Core.Procedure
import Dymint.Types.Tendermint

/-!
# Paths of batches on the data availability layer

A state update on the settlement layer names the place of its batch by a path: the
client of the data availability layer and the height there, joined by a dot.
`ToPath` writes the path and `FromPath` reads it.  Strings are lists of bytes; a dot
is one byte in every encoded text, so splitting by runes is splitting by bytes.
-/

namespace Dymint.Settlement

open Procedure Dymint.Types Decimal

/-- The error of a failed conversion of the package strconv. -/
structure NumError where
  func : String
  num : Bytes
  deriving DecidableEq

/-- Go's `strconv.ParseUint(num, 10, 64)`. -/
def parseUint (num : Bytes) : Result NumError UInt64 :=
  match parseUInt64 num with
  | some value => .ok value
  | none => .err ⟨"ParseUint", num⟩

/-- Go's `strconv.ParseInt(num, 10, 64)`. -/
def parseInt (num : Bytes) : Except NumError Int64 :=
  match parseInt64 num with
  | some value => .ok value
  | none => .error ⟨"ParseInt", num⟩

def dot : UInt8 := 46

/-- Go's `strings.FieldsFunc`: the pieces between separators without the empty ones. -/
def fieldsFunc (separator : UInt8 → Bool) (text : Bytes) : List Bytes :=
  (text.splitOnP separator).filter (· ≠ [])

structure DAMetaData where
  height : UInt64
  client : Bytes
  deriving DecidableEq

namespace DAMetaData

def toPath (d : DAMetaData) : Bytes := d.client ++ dot :: uint64Text d.height

def fromPath (path : Bytes) : Result NumError DAMetaData :=
  match fieldsFunc (· == dot) path with
  | client :: number :: _ => do
    let height ← parseUint number
    return ⟨height, client⟩
  -- `pathParts[1]` is out of range
  | _ => .panic

end DAMetaData

/-! ## Fields -/

variable {text : Bytes}

section

variable {separator : UInt8 → Bool}

theorem not_separator_of_mem_splitOnP :
    ∀ piece ∈ text.splitOnP separator, ∀ byte ∈ piece, separator byte = false := by
  induction text with
  | nil => simp
  | cons first text ih =>
    rw [List.splitOnP_cons_eq_if_modifyHead]
    split
    case isTrue => simpa using ih
    case isFalse hfirst =>
      cases hsplit : text.splitOnP separator with
      | nil => exact absurd hsplit (List.splitOnP_ne_nil _ _)
      | cons piece rest =>
        rw [hsplit] at ih
        simpa [hfirst] using ih

theorem of_mem_fieldsFunc {field : Bytes} (hfield : field ∈ fieldsFunc separator text) :
    field ≠ [] ∧ ∀ byte ∈ field, separator byte = false := by
  rw [fieldsFunc, List.mem_filter, decide_eq_true_eq] at hfield
  exact ⟨hfield.2, not_separator_of_mem_splitOnP field hfield.1⟩

theorem fieldsFunc_joined {left right : Bytes} {byte : UInt8} (hbyte : separator byte = true)
    (hleft : left ≠ []) (hleft' : ∀ byte ∈ left, separator byte = false) (hright : right ≠ [])
    (hright' : ∀ byte ∈ right, separator byte = false) :
    fieldsFunc separator (left ++ byte :: right) = [left, right] := by
  rw [fieldsFunc, List.splitOnP_append_cons_of_forall_mem hleft' byte hbyte,
    List.splitOnP_eq_singleton hright']
  simp [hleft, hright]

end

namespace DAMetaData

theorem eq_dot_iff : (∀ byte ∈ text, (byte == dot) = false) ↔ dot ∉ text := by
  simp only [beq_eq_false_iff_ne]
  constructor
  · intro hne hdot
    exact hne dot hdot rfl
  · rintro hdot byte hbyte rfl
    exact hdot hbyte

theorem fieldsFunc_toPath {d : DAMetaData} (hclient : d.client ≠ []) (hdot : dot ∉ d.client) :
    fieldsFunc (· == dot) d.toPath = [d.client, uint64Text d.height] := by
  have hnumber : dot ∉ uint64Text d.height := not_mem_natText (by decide) _
  exact fieldsFunc_joined (beq_self_eq_true dot) hclient (eq_dot_iff.2 hdot)
    (natText_ne_nil _) (eq_dot_iff.2 hnumber)

/-- `FromPath` inverts `ToPath`. -/
theorem fromPath_toPath {d : DAMetaData} (hclient : d.client ≠ []) (hdot : dot ∉ d.client) :
    fromPath d.toPath = .ok d := by
  rw [fromPath, fieldsFunc_toPath hclient hdot]
  simp only [parseUint, parseUInt64_uint64Text]
  rfl

def ReadsBack (path : Bytes) : Prop :=
  match fromPath path with
  | .ok d => d.toPath = path
  | .err _ => True
  | .panic => False

def WellFormed (path : Bytes) : Prop :=
  match fieldsFunc (· == dot) path with
  | client :: number :: _ =>
    (parseUInt64 number).isSome → path = client ++ dot :: number ∧ Canonical number
  | _ => False

instance (path : Bytes) : Decidable (ReadsBack path) :=
  match h : fromPath path with
  | .ok d => decidable_of_iff (d.toPath = path) (by rw [ReadsBack, h])
  | .err _ => isTrue (by rw [ReadsBack, h]; trivial)
  | .panic => isFalse (by rw [ReadsBack, h]; exact id)

instance (path : Bytes) : Decidable (WellFormed path) :=
  match h : fieldsFunc (· == dot) path with
  | client :: number :: _ =>
    decidable_of_iff
      ((parseUInt64 number).isSome → path = client ++ dot :: number ∧ Canonical number)
      (by rw [WellFormed, h])
  | [] => isFalse (by rw [WellFormed, h]; exact id)
  | [_] => isFalse (by rw [WellFormed, h]; exact id)

theorem toPath_eq_iff {path client number : Bytes} {rest : List Bytes} {height : UInt64}
    (hfields : fieldsFunc (· == dot) path = client :: number :: rest)
    (hnumber : parseUInt64 number = some height) :
    toPath ⟨height, client⟩ = path ↔ path = client ++ dot :: number ∧ Canonical number := by
  have hcanonical := natText_eq_iff_canonical (parseUInt64_eq_some.1 hnumber)
  constructor
  · intro hpath
    obtain ⟨hclient, hdot⟩ := of_mem_fieldsFunc (hfields ▸ List.mem_cons_self)
    have hwritten : client :: number :: rest = [client, uint64Text height] := by
      rw [← hfields, ← hpath]
      exact fieldsFunc_toPath hclient (eq_dot_iff.1 hdot)
    have hsame : uint64Text height = number := by
      injection hwritten with _ htail
      injection htail with hhead
      exact hhead.symm
    exact ⟨by rw [← hpath, toPath, hsame], hcanonical.1 hsame⟩
  · rintro ⟨hpath, hnumber⟩
    rw [hpath, toPath, uint64Text, hcanonical.2 hnumber]

theorem readsBack_iff (path : Bytes) : ReadsBack path ↔ WellFormed path := by
  rw [ReadsBack, WellFormed, fromPath]
  match hfields : fieldsFunc (· == dot) path with
  | [] => exact Iff.rfl
  | [_] => exact Iff.rfl
  | client :: number :: rest =>
    simp only [parseUint]
    cases hnumber : parseUInt64 number with
    | none => exact ⟨fun _ hsome => absurd hsome (by decide), fun _ => trivial⟩
    | some height =>
      have hiff := toPath_eq_iff hfields hnumber
      exact ⟨fun hpath _ => hiff.1 hpath, fun hwell => hiff.2 (hwell rfl)⟩

/-- `FromPath` inverts `ToPath` on non-empty client names without dots, and it reads a path
back exactly if the path is well formed: without a second field it panics, and fields
after the second, further dots and superfluous zeros are accepted. -/
theorem fromPath_exact_iff_wellFormed (d : DAMetaData) (path : Bytes) :
    (d.client ≠ [] → dot ∉ d.client → fromPath d.toPath = .ok d) ∧
      (ReadsBack path ↔ WellFormed path) :=
  ⟨fun hclient hdot => fromPath_toPath hclient hdot, readsBack_iff path⟩

/-- A path that is written is read, and one whose second field is not a number is
rejected. -/
theorem fromPath_exact_celestia :
    fromPath (toPath ⟨5, utf8 "celestia"⟩) = .ok ⟨5, utf8 "celestia"⟩ ∧
      ReadsBack (utf8 "celestia.5") ∧ ReadsBack (utf8 "celestia.x.5") := by
  have hclient : utf8 "celestia" ≠ [] := by decide +kernel
  have hdot : dot ∉ utf8 "celestia" := by decide +kernel
  have hheight : WellFormed (utf8 "celestia.5") := by decide +kernel
  have htext : WellFormed (utf8 "celestia.x.5") := by decide +kernel
  obtain ⟨hwritten, hread⟩ := fromPath_exact_iff_wellFormed ⟨5, utf8 "celestia"⟩ (utf8 "celestia.5")
  have hread' := (fromPath_exact_iff_wellFormed ⟨5, utf8 "celestia"⟩ (utf8 "celestia.x.5")).2
  refine ⟨hwritten hclient hdot, ?_, ?_⟩
  · rw [hread]
    exact hheight
  · rw [hread']
    exact htext

/-- A path without a height panics, and paths with a third field, with superfluous zeros
and with a leading dot are accepted. -/
theorem fromPath_accepts_other_paths : fromPath (utf8 "celestia") = .panic ∧
      fromPath (utf8 "celestia.5.junk") = .ok ⟨5, utf8 "celestia"⟩ ∧
      fromPath (utf8 "celestia.007") = .ok ⟨7, utf8 "celestia"⟩ ∧
      fromPath (utf8 ".celestia.5") = .ok ⟨5, utf8 "celestia"⟩ ∧
      (∀ path ∈ [utf8 "celestia", utf8 "celestia.5.junk", utf8 "celestia.007",
        utf8 ".celestia.5"], ¬ ReadsBack path) ∧
      ReadsBack (utf8 "celestia.5") := by
  decide +kernel

end DAMetaData

end Dymint.Settlement
