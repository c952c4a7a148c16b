import Keyring.Proofs.Codec.Wire
import Keyring.Proofs.PublicKey

/-!
# The size of a key

Key data are a row of strings, and reading takes them off the front one by one. So many
strings are read just where they were written there (`nextStrings_eq_ok_iff`), and reading
stops just where one of them is cut short (`nextStrings_eq_error_iff`). The size of an RSA
or DSA key is therefore the number of binary digits of one number among them, however many
bytes of zero stand in front of it (`sizes_on_the_wire`).
-/

namespace Keyring.PublicKey

open Codec Text

variable {bytes rest s : List UInt8} {strings : List (List UInt8)} {k : Nat} {e : Error}

/-- What is said of key data in which a string is cut short. -/
def truncated : Error := .invalidPublicKey "truncated key data"

theorem nextString_eq_error_iff : nextString bytes = .error e ↔ e = truncated ∧ Wire.CutShort bytes := by
  rw [← Wire.next?_eq_none_iff, nextString]
  cases Wire.next? bytes with
  | none => simp [truncated, eq_comm]
  | some found => simp

/-- So many strings, read one after the other, and what follows them. -/
def nextStrings : Nat → List UInt8 → Except Error (List (List UInt8) × List UInt8)
  | 0, bytes => .ok ([], bytes)
  | k + 1, bytes => do
    let (s, rest) ← nextString bytes
    let (more, rest) ← nextStrings k rest
    return (s :: more, rest)

/-- Strings that were written in a row, before some bytes. Each has a length that four bytes can say. -/
structure StartsWith (bytes : List UInt8) (strings : List (List UInt8)) (rest : List UInt8) : Prop where
  whole : bytes = strings.flatMap Wire.encode ++ rest
  short : ∀ s ∈ strings, s.length < 2 ^ 32

theorem startsWith_nil_iff : StartsWith bytes [] rest ↔ bytes = rest := by
  constructor
  · intro starts
    exact starts.whole
  · intro same
    exact ⟨same, nofun⟩

/-- The first of the strings is what is read first, and the others start what follows it. -/
theorem startsWith_cons_iff : StartsWith bytes (s :: strings) rest ↔
    ∃ after, nextString bytes = .ok (s, after) ∧ StartsWith after strings rest := by
  simp only [nextString_eq_ok_iff, Wire.next?_eq_some_iff]
  constructor
  · rintro ⟨rfl, short⟩
    obtain ⟨first, others⟩ := List.forall_mem_cons.mp short
    exact ⟨_, ⟨by rw [List.flatMap_cons, List.append_assoc], first⟩, rfl, others⟩
  · rintro ⟨after, ⟨rfl, first⟩, rfl, others⟩
    exact ⟨by rw [List.flatMap_cons, List.append_assoc], List.forall_mem_cons.mpr ⟨first, others⟩⟩

/-- So many strings are read just where they are what the bytes start with. -/
theorem nextStrings_eq_ok_iff :
    nextStrings k bytes = .ok (strings, rest) ↔ strings.length = k ∧ StartsWith bytes strings rest := by
  induction k generalizing bytes strings with
  | zero =>
    simp only [nextStrings, Except.ok.injEq, Prod.mk.injEq, List.length_eq_zero_iff]
    constructor
    · rintro ⟨rfl, rfl⟩
      exact ⟨rfl, startsWith_nil_iff.mpr rfl⟩
    · rintro ⟨rfl, starts⟩
      exact ⟨rfl, startsWith_nil_iff.mp starts⟩
  | succ k ih =>
    simp only [nextStrings, bind, Except.bind, pure, Except.pure]
    constructor
    · intro read
      cases first : nextString bytes with
      | error e => simp [first] at read
      | ok found =>
        obtain ⟨s, after⟩ := found
        cases others : nextStrings k after with
        | error e => simp [first, others] at read
        | ok found =>
          obtain ⟨more, last⟩ := found
          simp only [first, others, Except.ok.injEq, Prod.mk.injEq] at read
          obtain ⟨rfl, rfl⟩ := read
          obtain ⟨many, starts⟩ := ih.mp others
          exact ⟨by rw [List.length_cons, many], startsWith_cons_iff.mpr ⟨after, first, starts⟩⟩
    · rintro ⟨many, starts⟩
      cases strings with
      | nil => cases many
      | cons s strings =>
        obtain ⟨after, first, others⟩ := startsWith_cons_iff.mp starts
        have read := ih.mpr ⟨by simpa using many, others⟩
        simp [first, read]

/-- Reading so many strings fails just where fewer of them are followed by one that is cut short, and
that is what it says. -/
theorem nextStrings_eq_error_iff : nextStrings k bytes = .error e ↔
    e = truncated ∧ ∃ strings rest, strings.length < k ∧ StartsWith bytes strings rest ∧ Wire.CutShort rest := by
  induction k generalizing bytes with
  | zero => simp [nextStrings]
  | succ k ih =>
    simp only [nextStrings, bind, Except.bind, pure, Except.pure]
    cases first : nextString bytes with
    | error e' =>
      obtain ⟨rfl, cut⟩ := nextString_eq_error_iff.mp first
      simp only [Except.error.injEq]
      constructor
      · rintro rfl
        exact ⟨rfl, [], bytes, by simp, startsWith_nil_iff.mpr rfl, cut⟩
      · rintro ⟨rfl, -⟩
        rfl
    | ok found =>
      obtain ⟨s, after⟩ := found
      have stops : nextStrings k after = .error e ↔ e = truncated ∧ ∃ strings rest,
          strings.length < k + 1 ∧ StartsWith bytes strings rest ∧ Wire.CutShort rest := by
        rw [ih]
        refine and_congr_right fun _ => ?_
        constructor
        · rintro ⟨strings, rest, few, starts, cut⟩
          exact ⟨s :: strings, rest, by simpa using few, startsWith_cons_iff.mpr ⟨after, first, starts⟩, cut⟩
        · rintro ⟨strings, rest, few, starts, cut⟩
          cases strings with
          | nil =>
            -- the first string was read, so it is not the one that is cut short
            obtain rfl := startsWith_nil_iff.mp starts
            rw [nextString_eq_error_iff.mpr ⟨rfl, cut⟩] at first
            cases first
          | cons s' strings =>
            obtain ⟨after', first', others⟩ := startsWith_cons_iff.mp starts
            rw [first] at first'
            cases first'
            exact ⟨strings, rest, by simpa using few, others, cut⟩
      rw [← stops]
      cases others : nextStrings k after with
      | error e' => simp [others]
      | ok found => simp [others]

variable {pub : PublicKey} {type exponent modulus prime : List UInt8}

/-- The size of an RSA key is that of the number after the exponent. -/
theorem bits_of_rsa (isRsa : pub.algorithm = .rsa) (starts : StartsWith pub.blob [type, exponent, modulus] rest) :
    pub.bits = .ok (Nat.size (Wire.number modulus)) := by
  obtain ⟨afterType, first, starts⟩ := startsWith_cons_iff.mp starts
  obtain ⟨afterExponent, second, starts⟩ := startsWith_cons_iff.mp starts
  obtain ⟨afterModulus, third, -⟩ := startsWith_cons_iff.mp starts
  simp [bits, first, isRsa, second, third, Wire.bitLength_eq_size, bind, Except.bind, pure, Except.pure]

/-- The size of a DSA key is that of the number after the type. -/
theorem bits_of_dsa (isDsa : pub.algorithm = .dsa) (starts : StartsWith pub.blob [type, prime] rest) :
    pub.bits = .ok (Nat.size (Wire.number prime)) := by
  obtain ⟨afterType, first, starts⟩ := startsWith_cons_iff.mp starts
  obtain ⟨afterPrime, second, -⟩ := startsWith_cons_iff.mp starts
  simp [bits, first, isDsa, second, Wire.bitLength_eq_size, bind, Except.bind, pure, Except.pure]

/-- A key of a type, with these strings in its data after the type. -/
def ofStrings (keyType : String) (algorithm : Algorithm) (strings : List (List UInt8)) : PublicKey where
  keyType := keyType
  algorithm := algorithm
  blob := (utf8Bytes keyType :: strings).flatMap Wire.encode
  comment := ""

variable {keyType : String} {algorithm : Algorithm}

/-- Its data start with the type and the first of the strings. -/
theorem startsWith_ofStrings (algorithm : Algorithm) (front back : List (List UInt8))
    (typed : (utf8Bytes keyType).length < 2 ^ 32) (short : ∀ s ∈ front, s.length < 2 ^ 32) :
    StartsWith (ofStrings keyType algorithm (front ++ back)).blob (utf8Bytes keyType :: front)
      (back.flatMap Wire.encode) where
  whole := by rw [ofStrings, ← List.cons_append, List.flatMap_append]
  short := List.forall_mem_cons.mpr ⟨typed, short⟩

theorem ofText_ofStrings (known : Algorithm.ofKeyType? keyType = some algorithm) (solid : IsSolid keyType.toList)
    (typed : (utf8Bytes keyType).length < 2 ^ 32) :
    ofText (ofStrings keyType algorithm strings).line = .ok (ofStrings keyType algorithm strings) := by
  obtain ⟨after, first, -⟩ := startsWith_cons_iff.mp
    (startsWith_ofStrings algorithm [] strings typed nofun)
  have trimmed : IsTrimmed "".toList := by constructor <;> simp
  have sound : (ofStrings keyType algorithm strings).Sound :=
    ⟨solid, known, ⟨after, nextString_eq_ok_iff.mp first⟩, trimmed⟩
  exact sound.ofText_line

/-- Strings that were written are read again, whatever follows them, and nothing else is read. Reading
fails just where a length or the string that it announces is cut short. So a key that is made of an
exponent and a modulus, or of a prime and what goes with it, has as many bits as the number, and bytes
of zero in front of the number do not count. -/
theorem sizes_on_the_wire (short : ∀ s ∈ strings, s.length < 2 ^ 29) {zeros : Nat}
    (shortExponent : exponent.length < 2 ^ 29) (shortModulus : zeros + modulus.length < 2 ^ 29)
    (shortPrime : zeros + prime.length < 2 ^ 29) (others : List (List UInt8)) :
    (∀ s ∈ strings, ∃ size, Wire.encode s = size ++ s ∧ size.length = 4 ∧ Wire.number size = s.length) ∧
    (∀ rest, nextStrings strings.length (strings.flatMap Wire.encode ++ rest) = .ok (strings, rest)) ∧
    (∀ k bytes found rest, nextStrings k bytes = .ok (found, rest) →
      found.length = k ∧ bytes = found.flatMap Wire.encode ++ rest) ∧
    (∀ k bytes e, nextStrings k bytes = .error e ↔ e = .invalidPublicKey "truncated key data" ∧
      ∃ found rest, found.length < k ∧ StartsWith bytes found rest ∧ Wire.CutShort rest) ∧
    (∃ rsa, rsa = ofStrings "ssh-rsa" .rsa (exponent :: (List.replicate zeros 0 ++ modulus) :: others) ∧
      ofText rsa.line = .ok rsa ∧ rsa.bits = .ok (Nat.size (Wire.number modulus)) ∧
      Nat.size (Wire.number modulus) < 2 ^ 32) ∧
    ∃ dsa, dsa = ofStrings "ssh-dss" .dsa ((List.replicate zeros 0 ++ prime) :: others) ∧
      ofText dsa.line = .ok dsa ∧ dsa.bits = .ok (Nat.size (Wire.number prime)) ∧
      Nat.size (Wire.number prime) < 2 ^ 32 := by
  have within : ∀ s ∈ strings, s.length < 2 ^ 32 := fun s member => (short s member).trans (by decide)
  have fits {number : List UInt8} (few : zeros + number.length < 2 ^ 29) :
      (List.replicate zeros 0 ++ number).length < 2 ^ 32 ∧ Nat.size (Wire.number number) < 2 ^ 32 := by
    have most := Wire.size_number_le number
    rw [List.length_append, List.length_replicate]
    constructor <;> omega
  refine ⟨?_, ?_, ?_, fun k bytes e => nextStrings_eq_error_iff, ?_, ?_⟩
  · intro s member
    exact ⟨_, rfl, Wire.length_lengthBytes _, Wire.number_lengthBytes (within s member)⟩
  · intro rest
    exact nextStrings_eq_ok_iff.mpr ⟨rfl, rfl, within⟩
  · intro k bytes found rest read
    obtain ⟨many, starts⟩ := nextStrings_eq_ok_iff.mp read
    exact ⟨many, starts.whole⟩
  · obtain ⟨shortPadded, small⟩ := fits shortModulus
    refine ⟨_, rfl, ofText_ofStrings (by decide) (isSolid_of_all (by decide)) (by decide), ?_, small⟩
    rw [← Wire.number_zeros zeros]
    refine bits_of_rsa rfl (startsWith_ofStrings .rsa [exponent, _] others (by decide) ?_)
    intro s member
    simp only [List.mem_cons, List.not_mem_nil, or_false] at member
    rcases member with rfl | rfl
    · omega
    · exact shortPadded
  · obtain ⟨shortPadded, small⟩ := fits shortPrime
    refine ⟨_, rfl, ofText_ofStrings (by decide) (isSolid_of_all (by decide)) (by decide), ?_, small⟩
    rw [← Wire.number_zeros zeros]
    refine bits_of_dsa rfl (startsWith_ofStrings .dsa [_] others (by decide) ?_)
    intro s member
    rw [List.mem_singleton.mp member]
    exact shortPadded

/-- A modulus of two bytes has fifteen bits or sixteen, by its first bit, whatever zeros are put in
front of it. -/
theorem sizes_on_the_wire_of_smallNumbers :
    (∃ rsa, ofText rsa.line = .ok rsa ∧ rsa.bits = .ok 15) ∧
      (∃ dsa, ofText dsa.line = .ok dsa ∧ dsa.bits = .ok 16) ∧
      nextStrings 2 ([[7, 8], []].flatMap Wire.encode ++ [9]) = .ok ([[7, 8], []], [9]) := by
  have short : ∀ s ∈ [[7, 8], ([] : List UInt8)], s.length < 2 ^ 29 := by decide
  obtain ⟨-, reads, -, -, ⟨rsa, -, readRsa, bitsRsa, -⟩, dsa, -, readDsa, bitsDsa, -⟩ :=
    sizes_on_the_wire short (by decide : ([1, 0, 1] : List UInt8).length < 2 ^ 29)
      (by decide : 3 + ([0x7f, 0xff] : List UInt8).length < 2 ^ 29)
      (by decide : 3 + ([0x80, 0] : List UInt8).length < 2 ^ 29) [[2]]
  have fifteen : Nat.size (Wire.number [0x7f, 0xff]) = 15 := by decide +kernel
  have sixteen : Nat.size (Wire.number [0x80, 0]) = 16 := by decide +kernel
  rw [fifteen] at bitsRsa
  rw [sixteen] at bitsDsa
  exact ⟨⟨rsa, readRsa, bitsRsa⟩, ⟨dsa, readDsa, bitsDsa⟩, reads [9]⟩

end Keyring.PublicKey
