import Mathlib.Data.String.Basic
import Mathlib.Data.List.Basic
import Mathlib.Data.Nat.Digits

namespace Aedis.Resp3

def bytes (s : String) : List UInt8 := s.data.flatMap String.utf8EncodeChar

@[simp] theorem bytes_append (s t : String) : bytes (s ++ t) = bytes s ++ bytes t :=
  List.flatMap_append _ _ _

theorem bytes_join (ss : List String) : bytes (String.join ss) = (ss.map bytes).flatten := by
  simp only [bytes, String.data_join]
  induction ss with
  | nil => rfl
  | cons s ss ih => simp [List.flatMap_append, ih]; rfl

theorem length_bytes (s : String) : (bytes s).length = s.utf8ByteSize := by
  obtain ⟨cs⟩ := s
  simp only [bytes, String.utf8ByteSize_mk]
  induction cs with
  | nil => rfl
  | cons c cs ih => simp [ih, String.utf8Len_cons, Nat.add_comm]

theorem utf8EncodeChar_of_lt {c : Char} (h : c.toNat < 128) :
    String.utf8EncodeChar c = [c.toNat.toUInt8] := by
  have : c.val ≤ 0x7f := by change c.val.toNat ≤ 127; exact Nat.le_of_lt_succ h
  simp [String.utf8EncodeChar, this]
  rfl

def decimal (n : Nat) : List UInt8 := (Nat.toDigits 10 n).map fun c => c.toNat.toUInt8

def digitsValue (l : List UInt8) : Nat := l.foldl (fun v b => 10 * v + (b.toNat - 48)) 0

def isDigit (b : UInt8) : Bool := 48 ≤ b && b ≤ 57

theorem digitChar_toNat : ∀ d < 10, ((Nat.digitChar d).toNat.toUInt8).toNat = 48 + d ∧
    (Nat.digitChar d).toNat < 128 ∧ isDigit (Nat.digitChar d).toNat.toUInt8 = true := by
  decide

theorem toDigitsCore_append (f n : Nat) (acc : List Char) :
    Nat.toDigitsCore 10 f n acc = Nat.toDigitsCore 10 f n [] ++ acc := by
  induction f generalizing n acc with
  | zero => rfl
  | succ f ih =>
    simp only [Nat.toDigitsCore]
    split
    · rfl
    · rw [ih _ (_ :: acc), ih _ [_], List.append_assoc, List.singleton_append]

theorem digitsValue_append_singleton (l : List UInt8) (b : UInt8) :
    digitsValue (l ++ [b]) = 10 * digitsValue l + (b.toNat - 48) := by
  simp [digitsValue, List.foldl_append]

theorem toDigitsCore_spec : ∀ f n, n < f →
    (∀ c ∈ Nat.toDigitsCore 10 f n [], ∃ d < 10, c = Nat.digitChar d) ∧
      digitsValue ((Nat.toDigitsCore 10 f n []).map fun c => c.toNat.toUInt8) = n
  | 0, n, h => absurd h (Nat.not_lt_zero n)
  | f + 1, n, h => by
    have hlt : n % 10 < 10 := Nat.mod_lt _ (by decide)
    have hd := digitChar_toNat _ hlt
    simp only [Nat.toDigitsCore]
    split
    · next h0 =>
      refine ⟨fun c hc => ⟨_, hlt, List.mem_singleton.1 hc⟩, ?_⟩
      simp only [List.map_cons, List.map_nil, digitsValue, List.foldl_cons, List.foldl_nil,
        hd.1]
      omega
    · next h0 =>
      obtain ⟨ih₁, ih₂⟩ := toDigitsCore_spec f (n / 10) (by omega)
      rw [toDigitsCore_append, List.map_append]
      refine ⟨fun c hc => ?_, ?_⟩
      · rcases List.mem_append.1 hc with hc | hc
        · exact ih₁ c hc
        · exact ⟨_, hlt, List.mem_singleton.1 hc⟩
      · rw [List.map_cons, List.map_nil, digitsValue_append_singleton, ih₂, hd.1]
        omega

theorem mem_decimal {b : UInt8} {n : Nat} (h : b ∈ decimal n) :
    isDigit b = true ∧ b.toNat ≠ 13 ∧ b.toNat ≠ 63 := by
  obtain ⟨c, hc, rfl⟩ := List.mem_map.1 h
  obtain ⟨d, hd, rfl⟩ := (toDigitsCore_spec _ n (Nat.lt_succ_self n)).1 c hc
  have := (digitChar_toNat d hd).1
  exact ⟨(digitChar_toNat d hd).2.2, by omega, by omega⟩

theorem digitsValue_decimal (n : Nat) : digitsValue (decimal n) = n :=
  (toDigitsCore_spec _ n (Nat.lt_succ_self n)).2

theorem decimal_ne_nil (n : Nat) : decimal n ≠ [] := by
  simp only [decimal, Nat.toDigits, ne_eq, List.map_eq_nil_iff, Nat.toDigitsCore]
  split
  · simp
  · rw [toDigitsCore_append]; simp

theorem bytes_toString (n : Nat) : bytes (toString n) = decimal n := by
  show (Nat.toDigits 10 n).flatMap String.utf8EncodeChar = _
  rw [decimal, List.map_eq_flatMap]
  refine List.flatMap_congr fun c hc => ?_
  obtain ⟨d, hd, rfl⟩ := (toDigitsCore_spec _ n (Nat.lt_succ_self n)).1 c hc
  exact utf8EncodeChar_of_lt (digitChar_toNat d hd).2.1

/-- Modelled from the spec: a size or a length, a nonempty run of decimal digits. -/
def parseSize (line : List UInt8) : Option Nat :=
  if line ≠ [] ∧ line.all isDigit then some (digitsValue line) else none

theorem parseSize_decimal (n : Nat) : parseSize (decimal n) = some n := by
  rw [parseSize, if_pos ⟨decimal_ne_nil n, List.all_eq_true.2 fun b hb => (mem_decimal hb).1⟩,
    digitsValue_decimal]

/-- Modelled from the spec: a line, the bytes up to the first CRLF, and what follows it; `none`
while no CRLF has arrived. -/
def readLine : List UInt8 → Option (List UInt8 × List UInt8)
  | [] => none
  | b :: rest =>
    if b = 13 ∧ rest.head? = some 10 then some ([], rest.drop 1)
    else (readLine rest).map fun p => (b :: p.1, p.2)

theorem readLine_eq_some : ∀ {bs line rest : List UInt8}, readLine bs = some (line, rest) →
    bs = line ++ 13 :: 10 :: rest
  | [], _, _, h => by cases h
  | b :: bs, line, rest, h => by
    simp only [readLine] at h
    split at h
    · next hb =>
      obtain ⟨rfl, hd⟩ := hb
      cases h
      obtain ⟨_ | ⟨c, bs⟩⟩ := bs <;> simp_all
    · obtain ⟨⟨l, r⟩, hl, heq⟩ := Option.map_eq_some'.1 h
      cases heq
      simp [readLine_eq_some hl]

theorem readLine_append_crlf : ∀ {line : List UInt8} (rest : List UInt8), 13 ∉ line →
    readLine (line ++ 13 :: 10 :: rest) = some (line, rest)
  | [], rest, _ => by simp [readLine]
  | b :: line, rest, h => by
    rw [List.mem_cons, not_or] at h
    simp [readLine, Ne.symm h.1, readLine_append_crlf rest h.2]

theorem readLine_append {bs line rest : List UInt8} (more : List UInt8)
    (h : readLine bs = some (line, rest)) : readLine (bs ++ more) = some (line, rest ++ more) := by
  induction bs generalizing line rest with
  | nil => cases h
  | cons b bs ih =>
    rw [List.cons_append]
    simp only [readLine] at h ⊢
    split at h
    · next hb =>
      cases h
      obtain ⟨_ | ⟨c, bs⟩⟩ := bs
      · simp at hb
      · simp_all
    · next hb =>
      obtain ⟨⟨l, r⟩, hl, heq⟩ := Option.map_eq_some'.1 h
      cases heq
      obtain ⟨_ | ⟨c, bs⟩⟩ := bs
      · cases hl
      · simp only [List.cons_append, List.head?_cons] at hb ih ⊢
        rw [if_neg hb, ih hl]
        rfl

end Aedis.Resp3
