import Keyring.Proofs.Codec.Base64

/-!
# Base64 is canonical

Bytes are decoded from one text only, the one that they are encoded as
(`eq_encode_of_decode`): full groups are made of symbols, and the last group of symbols
and then padding, with no stray bits in the last symbol.
-/

namespace Keyring

theorem Text.utf8Bytes_inj {s t : String} (same : utf8Bytes s = utf8Bytes t) : s = t := by
  have encoded : s.toList.utf8Encode = t.toList.utf8Encode := congrArg List.toByteArray same
  have chars := congrArg ByteArray.utf8Decode? encoded
  rw [List.utf8Decode?_utf8Encode, List.utf8Decode?_utf8Encode, Option.some.injEq] at chars
  exact String.toList_inj.mp (by simpa using chars)

namespace Codec.Base64

variable {bytes group tail : List UInt8} {vs : List Nat} {offset : Nat}

theorem eq_symbolByte_of_value? {b : UInt8} {v : Nat} (valued : value? b = some v) :
    v < 64 ∧ b = symbolByte v := by
  have table : ∀ n < 256, ∀ v ∈ value? (UInt8.ofNat n), v < 64 ∧ UInt8.ofNat n = symbolByte v := by
    decide +kernel
  have entry := table b.toNat b.toNat_lt v
  rw [UInt8.ofNat_toNat] at entry
  exact entry valued

theorem eq_map_symbolByte_of_values (read : values offset bytes = .ok vs) :
    bytes = vs.map symbolByte ∧ ∀ v ∈ vs, v < 64 := by
  induction bytes generalizing offset vs with
  | nil =>
    cases read
    simp
  | cons b rest ih =>
    rw [values] at read
    cases valued : value? b with
    | none =>
      rw [valued] at read
      cases read
    | some v =>
      rw [valued] at read
      cases others : values (offset + 1) rest with
      | error fault =>
        rw [others] at read
        cases read
      | ok more =>
        rw [others] at read
        obtain ⟨small, same⟩ := eq_symbolByte_of_value? valued
        obtain ⟨tailSame, tailSmall⟩ := ih others
        cases read
        constructor
        · rw [List.map_cons, ← same, ← tailSame]
        · exact List.forall_mem_cons.mpr ⟨small, tailSmall⟩

theorem eq_replicate_of_scan {firstPad i : Nat} (late : 2 ≤ i) (padded : firstPad < i)
    (quiet : groupFault?.scan offset firstPad i group = none) :
    group = List.replicate group.length pad := by
  induction group generalizing i with
  | nil => rfl
  | cons b rest ih =>
    by_cases isPad : b = pad
    · subst isPad
      have others : groupFault?.scan offset firstPad (i + 1) rest = none := by
        simpa [groupFault?.scan, Nat.not_lt.mpr late] using quiet
      rw [List.length_cons, List.replicate_succ, ← ih (by omega) (by omega) others]
    · simp [groupFault?.scan, isPad, padded] at quiet

/-- A group without a fault is made of symbols and then of padding, with two symbols at least where
there is padding. -/
theorem exists_symbols_of_scan {i : Nat}
    (quiet : groupFault?.scan offset (i + group.findIdx (· == pad)) i group = none) :
    ∃ (vs : List Nat) (n : Nat), group = vs.map symbolByte ++ List.replicate n pad ∧ (∀ v ∈ vs, v < 64) ∧
      (n = 0 ∨ 2 ≤ i + vs.length) := by
  induction group generalizing i with
  | nil => exact ⟨[], 0, rfl, by simp, .inl rfl⟩
  | cons b rest ih =>
    by_cases isPad : b = pad
    · subst isPad
      have late : 2 ≤ i := by
        by_contra early
        simp [groupFault?.scan, Nat.lt_of_not_le early] at quiet
      have others : groupFault?.scan offset i (i + 1) rest = none := by
        simpa [groupFault?.scan, Nat.not_lt.mpr late, List.findIdx_cons] using quiet
      refine ⟨[], rest.length + 1, ?_, by simp, .inr late⟩
      rw [List.replicate_succ, ← eq_replicate_of_scan (by omega) (by omega) others]
      rfl
    · cases valued : value? b with
      | none =>
        rw [groupFault?.scan, if_neg (by simpa using isPad), valued] at quiet
        split at quiet
        · cases quiet
        · cases quiet
      | some v =>
        have others : groupFault?.scan offset (i + 1 + rest.findIdx (· == pad)) (i + 1) rest = none := by
          have other : (b == pad) = false := by simpa using isPad
          have index : i + (b :: rest).findIdx (· == pad) = i + 1 + rest.findIdx (· == pad) := by
            rw [List.findIdx_cons, other, cond_false]
            omega
          rw [index, groupFault?.scan, if_neg (by simp [other]), if_neg (by omega), valued] at quiet
          exact quiet
        obtain ⟨vs, n, same, small, enough⟩ := ih others
        obtain ⟨vSmall, vSame⟩ := eq_symbolByte_of_value? valued
        refine ⟨v :: vs, n, ?_, List.forall_mem_cons.mpr ⟨vSmall, small⟩, ?_⟩
        · rw [same, vSame]
          rfl
        · rw [List.length_cons]
          omega

theorem exists_symbols_of_groupFault? (quiet : groupFault? offset group = none) :
    ∃ (vs : List Nat) (n : Nat), group = vs.map symbolByte ++ List.replicate n pad ∧ (∀ v ∈ vs, v < 64) ∧
      (n = 0 ∨ 2 ≤ vs.length) := by
  have scanned : groupFault?.scan offset (0 + group.findIdx (· == pad)) 0 group = none := by
    rw [Nat.zero_add]
    exact quiet
  have shape := exists_symbols_of_scan scanned
  simpa only [Nat.zero_add] using shape

theorem toNat_ofNat {n : Nat} (small : n < 256) : (UInt8.ofNat n).toNat = n := by
  have inRange : n < UInt8.size := small
  exact UInt8.toNat_ofNat_of_lt' inRange

/-- Values of full groups are the six-bit values of the bytes that they are joined to. -/
theorem sextets_joinGroups (full : vs.length % 4 = 0) (small : ∀ v ∈ vs, v < 64) :
    sextets (joinGroups vs) = vs ∧ IsFull (joinGroups vs) := by
  fun_induction joinGroups vs with
  | case1 a b c d rest v ih =>
    simp only [List.forall_mem_cons] at small
    obtain ⟨aSmall, bSmall, cSmall, dSmall, others⟩ := small
    have fullRest : rest.length % 4 = 0 := by
      simp only [List.length_cons] at full
      omega
    obtain ⟨restSame, restFull⟩ := ih fullRest others
    have first : (UInt8.ofNat (v / 65536)).toNat = v / 65536 := toNat_ofNat (by omega)
    have second : (UInt8.ofNat (v / 256 % 256)).toNat = v / 256 % 256 := toNat_ofNat (by omega)
    have third : (UInt8.ofNat (v % 256)).toNat = v % 256 := toNat_ofNat (by omega)
    have whole : v / 65536 * 65536 + v / 256 % 256 * 256 + v % 256 = v := by omega
    have parts : v / 262144 = a ∧ v / 4096 % 64 = b ∧ v / 64 % 64 = c ∧ v % 64 = d := by omega
    constructor
    · simp only [sextets, first, second, third, whole, parts, restSame]
    · unfold IsFull at restFull ⊢
      simp only [List.length_cons]
      omega
  | case2 vs short =>
    match vs with
    | [] => exact ⟨rfl, rfl⟩
    | [_] => cases full
    | [_, _] => cases full
    | [_, _, _] => cases full
    | a :: b :: c :: d :: rest => exact (short a b c d rest rfl).elim

/-- Two symbols are what the one byte is encoded as that they are decoded to. -/
theorem bytesOf_encode_one {a b : Nat} (aSmall : a < 64) (bSmall : b < 64) (clear : b % 16 = 0) :
    bytesOf (encode [UInt8.ofNat (a * 4 + b / 16)]) = [symbolByte a, symbolByte b, pad, pad] := by
  have byte : (UInt8.ofNat (a * 4 + b / 16)).toNat = a * 4 + b / 16 := toNat_ofNat (by omega)
  have first : (a * 4 + b / 16) / 4 = a := by omega
  have second : (a * 4 + b / 16) % 4 * 16 = b := by omega
  have text : encode [UInt8.ofNat (a * 4 + b / 16)] = [symbol a, symbol b, '=', '='] := by
    rw [encode, byte, first, second]
  rw [text]
  simp only [bytesOf, List.flatMap_cons, List.flatMap_nil, utf8EncodeChar_symbol, utf8EncodeChar_pad]
  rfl

/-- Three symbols are what the two bytes are encoded as that they are decoded to. -/
theorem bytesOf_encode_two {a b c : Nat} (aSmall : a < 64) (bSmall : b < 64) (cSmall : c < 64)
    (clear : c % 4 = 0) : bytesOf (encode [UInt8.ofNat (a * 4 + b / 16), UInt8.ofNat (b % 16 * 16 + c / 4)]) =
      [symbolByte a, symbolByte b, symbolByte c, pad] := by
  have front : (UInt8.ofNat (a * 4 + b / 16)).toNat = a * 4 + b / 16 := toNat_ofNat (by omega)
  have back : (UInt8.ofNat (b % 16 * 16 + c / 4)).toNat = b % 16 * 16 + c / 4 := toNat_ofNat (by omega)
  have text : encode [UInt8.ofNat (a * 4 + b / 16), UInt8.ofNat (b % 16 * 16 + c / 4)] =
      [symbol a, symbol b, symbol c, '='] := by
    have first : ((a * 4 + b / 16) * 65536 + (b % 16 * 16 + c / 4) * 256) / 262144 = a := by omega
    have second : ((a * 4 + b / 16) * 65536 + (b % 16 * 16 + c / 4) * 256) / 4096 % 64 = b := by omega
    have third : ((a * 4 + b / 16) * 65536 + (b % 16 * 16 + c / 4) * 256) / 64 % 64 = c := by omega
    simp only [encode, front, back, first, second, third]
  rw [text]
  simp only [bytesOf, List.flatMap_cons, List.flatMap_nil, utf8EncodeChar_symbol, utf8EncodeChar_pad]
  rfl

theorem bytesOf_encode_of_decodeLast (few : group.length ≤ 4) (decoded : decodeLast offset group = .ok tail) :
    bytesOf (encode tail) = group := by
  unfold decodeLast at decoded
  cases quiet : groupFault? offset group with
  | some fault =>
    rw [quiet] at decoded
    cases decoded
  | none =>
    obtain ⟨vs, n, rfl, small, enough⟩ := exists_symbols_of_groupFault? quiet
    have symbols : (vs.map symbolByte ++ List.replicate n pad).filter (· ≠ pad) = vs.map symbolByte := by
      simp [List.filter_append, List.filter_map, Function.comp_def]
    have valued : (vs.map symbolByte).filterMap value? = vs := by
      have each : ∀ v ∈ vs, (value? ∘ symbolByte) v = some v := fun v inside => value?_symbolByte (small v inside)
      rw [List.filterMap_map, List.filterMap_congr each, List.filterMap_some]
    simp only [quiet, symbols, valued, List.length_append, List.length_map, List.length_replicate] at decoded few
    match vs with
    | [] =>
      obtain rfl : n = 0 := by simpa using enough
      dsimp only at decoded
      split at decoded
      · cases decoded
        rfl
      · cases decoded
    | [_] => cases decoded
    | [a, b] =>
      simp only [List.forall_mem_cons] at small
      obtain ⟨aSmall, bSmall, -⟩ := small
      dsimp only [List.length_cons, List.length_nil] at decoded
      split at decoded
      · cases decoded
      split at decoded
      · cases decoded
      · rename_i whole clear
        obtain rfl : n = 2 := by omega
        cases decoded
        exact bytesOf_encode_one aSmall bSmall (not_not.mp clear)
    | [a, b, c] =>
      simp only [List.forall_mem_cons] at small
      obtain ⟨aSmall, bSmall, cSmall, -⟩ := small
      dsimp only [List.length_cons, List.length_nil] at decoded
      split at decoded
      · cases decoded
      split at decoded
      · cases decoded
      · rename_i whole clear
        obtain rfl : n = 1 := by omega
        cases decoded
        exact bytesOf_encode_two aSmall bSmall cSmall (not_not.mp clear)
    | a :: b :: c :: d :: rest =>
      obtain ⟨rfl, rfl⟩ : rest = [] ∧ n = 0 := by
        simp only [List.length_cons] at few
        exact ⟨List.length_eq_zero_iff.mp (by omega), by omega⟩
      cases decoded
      have four : [a, b, c, d].length % 4 = 0 := by
        simp only [List.length_cons, List.length_nil, Nat.reduceAdd, Nat.mod_self]
      obtain ⟨same, full⟩ := @sextets_joinGroups [a, b, c, d] four small
      have text : encode (joinGroups [a, b, c, d]) = [a, b, c, d].map symbol := by
        have whole := encode_append full []
        rw [List.append_nil, same] at whole
        exact whole
      rw [text, bytesOf_map_symbol, List.replicate_zero, List.append_nil]

/-- Bytes that are decoded are encoded as the bytes that were read. -/
theorem bytesOf_encode_of_decode (decoded : decode bytes = .ok tail) : bytesOf (encode tail) = bytes := by
  unfold decode at decoded
  split at decoded
  · cases decoded
  dsimp only at decoded
  cases groups : values 0 (bytes.take (fullGroupsLength bytes.length)) with
  | error fault => simp [groups, bind, Except.bind] at decoded
  | ok vs =>
  cases last : decodeLast (fullGroupsLength bytes.length) (bytes.drop (fullGroupsLength bytes.length)) with
  | error fault => simp [groups, last, bind, Except.bind] at decoded
  | ok lastBytes =>
    simp only [groups, last, bind, Except.bind, pure, Except.pure, Except.ok.injEq] at decoded
    obtain ⟨frontSame, small⟩ := eq_map_symbolByte_of_values groups
    have length : vs.length = fullGroupsLength bytes.length := by
      have long := congrArg List.length frontSame
      rw [List.length_take, List.length_map] at long
      rw [← long, fullGroupsLength]
      omega
    have few : (bytes.drop (fullGroupsLength bytes.length)).length ≤ 4 := by
      rw [List.length_drop, fullGroupsLength]
      omega
    obtain ⟨same, full⟩ := sextets_joinGroups (by rw [length, fullGroupsLength]; omega) small
    calc bytesOf (encode tail) = bytesOf (vs.map symbol ++ encode lastBytes) := by
          rw [← decoded, encode_append full, same]
      _ = vs.map symbolByte ++ bytesOf (encode lastBytes) := by
          rw [← bytesOf_map_symbol]
          exact List.flatMap_append
      _ = bytes := by
          rw [bytesOf_encode_of_decodeLast few last, ← frontSame, List.take_append_drop]

/-- The only text that is decoded to some bytes is what they are encoded as. -/
theorem eq_encode_of_decode {text : String} (decoded : decode (Text.utf8Bytes text) = .ok bytes) :
    text = String.ofList (encode bytes) := by
  refine Text.utf8Bytes_inj ?_
  rw [← bytesOf_encode_of_decode decoded, Text.utf8Bytes, String.toList_ofList]
  rfl

end Codec.Base64

end Keyring
