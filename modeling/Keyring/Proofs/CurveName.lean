import Keyring.Proofs.Codec.Wire
import Keyring.Proofs.PublicKey
import Mathlib.Algebra.Group.Nat.Defs

/-!
# The curve of a key

The data of an elliptic-curve key hold its type and then the name of its curve. The size of the key is
that of the curve named in the data, whatever its type says (`size_of_curve`).
-/

namespace Keyring

open Codec Text

/-- Whatever follows the front, the type is one of an elliptic-curve key. -/
theorem Algorithm.ofKeyType?_eq_ecdsa_iff {keyType : String} :
    ofKeyType? keyType = some .ecdsa ↔ ∃ label, keyType = curveTypeFront ++ label := by
  unfold ofKeyType?
  constructor
  · intro known
    by_cases front : curveTypeFront.toList.isPrefixOf keyType.toList = true
    · obtain ⟨label, whole⟩ := List.isPrefixOf_iff_prefix.mp front
      refine ⟨String.ofList label, ?_⟩
      apply String.toList_inj.mp
      rw [← whole, String.toList_append, String.toList_ofList]
    · split_ifs at known
      · cases known
      · cases known
      · cases known
  · rintro ⟨label, rfl⟩
    have other : ∀ name : String, name.toList.head? ≠ some 'e' → curveTypeFront ++ label ≠ name := by
      rintro _ differs rfl
      apply differs
      rw [String.toList_append]
      rfl
    rw [if_neg (other _ (by decide)), if_neg (other _ (by decide)), if_neg (other _ (by decide)), if_pos]
    rw [String.toList_append]
    exact List.isPrefixOf_iff_prefix.mpr (List.prefix_append _ _)

namespace PublicKey

variable {text : String} {pub : PublicKey} {n : Nat} {curve data : List UInt8}

theorem curveSize?_eq_some_iff :
    curveSize? curve = some n ↔ n ∈ Algorithm.curveBits ∧ curve = utf8Bytes ("nistp" ++ toString n) := by
  unfold curveSize? Algorithm.curveBits
  constructor
  · intro known
    split_ifs at known with small middle large
    · cases known
      exact ⟨by simp, small⟩
    · cases known
      exact ⟨by simp, middle⟩
    · cases known
      exact ⟨by simp, large⟩
  · rintro ⟨size, rfl⟩
    rcases List.mem_cons.mp size with rfl | size
    · decide
    rcases List.mem_cons.mp size with rfl | size
    · decide
    rcases List.mem_singleton.mp size with rfl
    decide

theorem length_curveName (size : n ∈ Algorithm.curveBits) : (utf8Bytes ("nistp" ++ toString n)).length < 2 ^ 32 := by
  have short : ∀ n ∈ Algorithm.curveBits, (utf8Bytes ("nistp" ++ toString n)).length < 2 ^ 32 := by decide
  exact short n size

/-- The size is that of the curve whose name follows the type in the key data, if it is known. -/
theorem bits_eq_ok_iff_of_ecdsa (isCurve : pub.algorithm = .ecdsa) {embedded : List UInt8}
    (next : Wire.next? pub.blob = some (embedded, data)) :
    pub.bits = .ok n ↔ n ∈ Algorithm.curveBits ∧
      ∃ more, data = Wire.encode (utf8Bytes ("nistp" ++ toString n)) ++ more := by
  unfold bits
  rw [nextString_eq_ok_iff.mpr next, isCurve]
  simp only [bind, Except.bind, pure, Except.pure]
  constructor
  · intro read
    cases named : nextString data with
    | error e => simp [named] at read
    | ok found =>
      obtain ⟨curve, more⟩ := found
      cases size : curveSize? curve with
      | none => simp [named, size] at read
      | some m =>
        simp only [named, size, Except.ok.injEq] at read
        obtain ⟨known, rfl⟩ := curveSize?_eq_some_iff.mp size
        rw [← read]
        exact ⟨known, more, Wire.eq_encode_of_next? (nextString_eq_ok_iff.mp named)⟩
  · rintro ⟨known, more, rfl⟩
    rw [nextString_eq_ok_iff.mpr (Wire.next?_encode (length_curveName known) more)]
    simp only [curveSize?_eq_some_iff.mpr ⟨known, rfl⟩]

theorem mem_curveNames_iff {label : String} : label ∈ ["nistp256", "nistp384", "nistp521"] ↔
    ∃ n ∈ [256, 384, 521], label = "nistp" ++ toString n := by
  have names : ["nistp256", "nistp384", "nistp521"] = [256, 384, 521].map fun n => "nistp" ++ toString n := by
    decide
  rw [names, List.mem_map]
  exact exists_congr fun n => and_congr_right fun _ => eq_comm

/-- The type of an elliptic-curve key is a front and a label, which may be any, and its size is that of the
curve named in its key data after the type. So the type names the size just where its label is a known
curve and is the curve named there. -/
theorem size_of_curve (read : ofText text = .ok pub) (isCurve : pub.algorithm = .ecdsa) :
    ∃ label data, pub.keyType = "ecdsa-sha2-" ++ label ∧
      pub.blob = Wire.encode (utf8Bytes pub.keyType) ++ data ∧
      (∀ n, pub.bits = .ok n ↔
        n ∈ [256, 384, 521] ∧ ∃ more, data = Wire.encode (utf8Bytes ("nistp" ++ toString n)) ++ more) ∧
      ((∃ n ∈ [256, 384, 521], pub.keyType = "ecdsa-sha2-nistp" ++ toString n ∧ pub.bits = .ok n) ↔
        label ∈ ["nistp256", "nistp384", "nistp521"] ∧ ∃ more, data = Wire.encode (utf8Bytes label) ++ more) := by
  have sound := sound_of_ofText read
  obtain ⟨data, next⟩ := sound.embedded
  have known := sound.known
  rw [isCurve] at known
  obtain ⟨label, typed⟩ := Algorithm.ofKeyType?_eq_ecdsa_iff.mp known
  have size : ∀ n, pub.bits = .ok n ↔
      n ∈ [256, 384, 521] ∧ ∃ more, data = Wire.encode (utf8Bytes ("nistp" ++ toString n)) ++ more := by
    intro n
    exact bits_eq_ok_iff_of_ecdsa isCurve next
  have labelled : ∀ n : Nat, pub.keyType = "ecdsa-sha2-nistp" ++ toString n ↔ label = "nistp" ++ toString n := by
    intro n
    have front : "ecdsa-sha2-nistp" ++ toString n = Algorithm.curveTypeFront ++ ("nistp" ++ toString n) := by
      rw [← String.append_assoc]
      rfl
    rw [typed, front]
    exact String.append_right_inj _
  refine ⟨label, data, typed, Wire.eq_encode_of_next? next, size, ?_⟩
  rw [mem_curveNames_iff]
  constructor
  · rintro ⟨n, member, named, sized⟩
    obtain rfl := (labelled n).mp named
    exact ⟨⟨n, member, rfl⟩, ((size n).mp sized).2⟩
  · rintro ⟨⟨n, member, rfl⟩, inData⟩
    exact ⟨n, member, (labelled n).mpr rfl, (size n).mpr ⟨member, inData⟩⟩

/-- Key data of a type with this label that name a curve and hold nothing else. -/
def keyOnCurve (label curve : String) : PublicKey where
  keyType := "ecdsa-sha2-" ++ label
  algorithm := .ecdsa
  blob := Wire.encode (utf8Bytes ("ecdsa-sha2-" ++ label)) ++ Wire.encode (utf8Bytes curve)
  comment := ""

/-- A type of no known curve is read, and so is one that names another curve than the key data do. -/
theorem size_of_strayCurves :
    ofText (keyOnCurve "nistp999" "nistp999").line = .ok (keyOnCurve "nistp999" "nistp999") ∧
      (∀ n, (keyOnCurve "nistp999" "nistp999").bits ≠ .ok n) ∧
      ofText (keyOnCurve "nistp256" "nistp384").line = .ok (keyOnCurve "nistp256" "nistp384") ∧
      (keyOnCurve "nistp256" "nistp384").keyType = "ecdsa-sha2-nistp256" ∧
      (keyOnCurve "nistp256" "nistp384").bits = .ok 384 := by
  have unknown : ofText (keyOnCurve "nistp999" "nistp999").line = .ok (keyOnCurve "nistp999" "nistp999") := by
    decide +kernel
  have other : ofText (keyOnCurve "nistp256" "nistp384").line = .ok (keyOnCurve "nistp256" "nistp384") := by
    decide +kernel
  refine ⟨unknown, ?_, other, by decide, ?_⟩
  · intro n sized
    obtain ⟨label, data, _, blob, size, _⟩ := size_of_curve unknown rfl
    obtain rfl := List.append_cancel_left blob
    obtain ⟨member, more, named⟩ := (size n).mp sized
    have first := congrArg Wire.next? named
    rw [← List.append_nil (Wire.encode _), Wire.next?_encode (by decide),
      Wire.next?_encode (length_curveName member)] at first
    have curve : "nistp999" = "nistp" ++ toString n := utf8Bytes_inj (Prod.mk.inj (Option.some.inj first)).1
    have others : ∀ n ∈ [256, 384, 521], "nistp999" ≠ "nistp" ++ toString n := by decide
    exact others n member curve
  · obtain ⟨label, data, _, blob, size, _⟩ := size_of_curve other rfl
    obtain rfl := List.append_cancel_left blob
    exact (size 384).mpr ⟨by decide, [], by decide⟩

end PublicKey

end Keyring
