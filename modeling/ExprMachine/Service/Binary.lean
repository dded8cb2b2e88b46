import ExprMachine.Service.Message

/-! The binary form of messages: each field is a tag, made of its number and a wire type, followed
by a value that can be skipped without knowing the field. -/
namespace ExprMachine.Service

def varint (n : Nat) : Bytes :=
  if n < 128 then [n.toUInt8] else (128 + n % 128).toUInt8 :: varint (n / 128)
termination_by n

def readGroups? : Nat → Bytes → Option (Nat × Bytes)
  | 0, _ => none
  | _, [] => none
  | k + 1, b :: rest =>
    if b < 128 then some (b.toNat, rest)
    else (readGroups? k rest).map fun (n, rest) => (b.toNat % 128 + 128 * n, rest)

def readVarint? (s : Bytes) : Option (Nat × Bytes) :=
  (readGroups? 10 s).filter fun p => p.1 < 0x1_0000_0000_0000_0000

theorem readGroups?_length {k n : Nat} {s rest : Bytes} (h : readGroups? k s = some (n, rest)) :
    rest.length < s.length := by
  induction k generalizing s n with
  | zero => simp [readGroups?] at h
  | succ k ih =>
    cases s with
    | nil => simp [readGroups?] at h
    | cons b tail =>
      unfold readGroups? at h
      split at h
      · cases Option.some.inj h
        simp
      · obtain ⟨⟨m, last⟩, read, same⟩ := Option.map_eq_some_iff.mp h
        cases same
        have := ih read
        simp
        omega

theorem readVarint?_length {n : Nat} {s rest : Bytes} (h : readVarint? s = some (n, rest)) :
    rest.length < s.length :=
  readGroups?_length (Option.filter_eq_some_iff.mp h).1

structure Tag where
  number : Nat
  wireType : Nat
  deriving DecidableEq, Repr

def Tag.encode (t : Tag) : Bytes := varint (t.number * 8 + t.wireType)

def readTag? (s : Bytes) : Option (Tag × Bytes) :=
  match readVarint? s with
  | some (n, rest) => if 1 ≤ n / 8 ∧ n / 8 < 0x8000_0000 then some (⟨n / 8, n % 8⟩, rest) else none
  | none => none

theorem readTag?_length {t : Tag} {s rest : Bytes} (h : readTag? s = some (t, rest)) :
    rest.length < s.length := by
  unfold readTag? at h
  split at h
  · rename_i n tail read
    split at h
    · cases Option.some.inj h
      exact readVarint?_length read
    · contradiction
  · contradiction

def dropExactly? (n : Nat) (s : Bytes) : Option Bytes :=
  if n ≤ s.length then some (s.drop n) else none

def readBytes? (s : Bytes) : Option (Bytes × Bytes) :=
  match readVarint? s with
  | some (n, rest) => if n ≤ rest.length then some (rest.take n, rest.drop n) else none
  | none => none

theorem readBytes?_length {s out rest : Bytes} (h : readBytes? s = some (out, rest)) :
    rest.length < s.length := by
  unfold readBytes? at h
  split at h
  · rename_i n tail read
    have := readVarint?_length read
    split at h
    · cases Option.some.inj h
      simp
      omega
    · contradiction
  · contradiction

def skipScalar? (wireType : Nat) (s : Bytes) : Option Bytes :=
  match wireType with
  | 0 => (readVarint? s).map Prod.snd
  | 1 => dropExactly? 8 s
  | 2 => (readBytes? s).map Prod.snd
  | 5 => dropExactly? 4 s
  | _ => none

theorem skipScalar?_length {w : Nat} {s rest : Bytes} (h : skipScalar? w s = some rest) :
    rest.length ≤ s.length := by
  unfold skipScalar? at h
  split at h
  · obtain ⟨⟨_, _⟩, read, same⟩ := Option.map_eq_some_iff.mp h
    cases same
    exact Nat.le_of_lt (readVarint?_length read)
  · unfold dropExactly? at h
    split at h
    · cases Option.some.inj h
      simp
    · contradiction
  · obtain ⟨⟨_, _⟩, read, same⟩ := Option.map_eq_some_iff.mp h
    cases same
    exact Nat.le_of_lt (readBytes?_length read)
  · unfold dropExactly? at h
    split at h
    · cases Option.some.inj h
      simp
    · contradiction
  · contradiction

def maxOpenGroups : Nat := 10001

def skipGroups? (stack : List Nat) (s : Bytes) : Option Bytes :=
  match stack with
  | [] => some s
  | innermost :: outer =>
    match _h : readTag? s with
    | none => none
    | some (t, rest) =>
      if t.wireType = 3 then
        if stack.length < maxOpenGroups then skipGroups? (t.number :: stack) rest else none
      else if t.wireType = 4 then
        if t.number = innermost then skipGroups? outer rest else none
      else
        match _h' : skipScalar? t.wireType rest with
        | none => none
        | some rest => skipGroups? stack rest
termination_by s.length
decreasing_by
  · exact readTag?_length _h
  · exact readTag?_length _h
  · have := readTag?_length _h
    have := skipScalar?_length _h'
    omega

theorem skipGroups?_length {stack : List Nat} {s rest : Bytes}
    (h : skipGroups? stack s = some rest) : rest.length ≤ s.length := by
  fun_induction skipGroups? stack s with
  | case1 s =>
    cases Option.some.inj h
    simp
  | case2 => contradiction
  | case3 s innermost outer t tail read _ few ih =>
    rw [if_pos few] at h
    have := readTag?_length read
    have := ih h
    omega
  | case4 s innermost outer t tail read _ many =>
    rw [if_neg many] at h
    contradiction
  | case5 s outer t tail read _ _ ih =>
    have := readTag?_length read
    have := ih h
    omega
  | case6 => contradiction
  | case7 => contradiction
  | case8 s innermost outer t tail read _ _ after skipped ih =>
    have := readTag?_length read
    have := skipScalar?_length skipped
    have := ih h
    omega

def skipValue? (t : Tag) (s : Bytes) : Option Bytes :=
  if t.wireType = 3 then skipGroups? [t.number] s else skipScalar? t.wireType s

theorem skipValue?_length {t : Tag} {s rest : Bytes} (h : skipValue? t s = some rest) :
    rest.length ≤ s.length := by
  unfold skipValue? at h
  split at h
  · exact skipGroups?_length h
  · exact skipScalar?_length h

namespace Message

def addText (m : Message) (f : Field) (s : Bytes) : Message :=
  -- The last occurrence of a field counts, and a repeated field collects them all.
  if f.repeated then m.set f.number (.texts ((m.value f.number).asTexts ++ [s]))
  else m.set f.number (.text s)

def takeField? (t : MessageType) (m : Message) (tag : Tag) (s : Bytes) :
    Option (Message × Bytes) :=
  -- Fields that are unknown, or come with another wire type than theirs, are skipped.
  match t.fields.find? (·.number == tag.number), tag.wireType with
  | some f, 2 =>
    if f.type = .string then
      match readBytes? s with
      | some (text, rest) => if Text.isValid text then some (m.addText f text, rest) else none
      | none => none
    else (skipValue? tag s).map (m, ·)
  | some f, 0 =>
    if f.type = .bool then
      match readVarint? s with
      | some (n, rest) => some (m.set f.number (.flag (n != 0)), rest)
      | none => none
    else (skipValue? tag s).map (m, ·)
  | _, _ => (skipValue? tag s).map (m, ·)

theorem takeField?_length {t : MessageType} {m m' : Message} {tag : Tag} {s rest : Bytes}
    (h : takeField? t m tag s = some (m', rest)) : rest.length ≤ s.length := by
  have skipped : (skipValue? tag s).map (m, ·) = some (m', rest) → rest.length ≤ s.length := by
    intro h
    obtain ⟨_, read, same⟩ := Option.map_eq_some_iff.mp h
    cases same
    exact skipValue?_length read
  unfold takeField? at h
  split at h
  · split at h
    · split at h
      · rename_i text tail read
        split at h
        · cases Option.some.inj h
          exact Nat.le_of_lt (readBytes?_length read)
        · contradiction
      · contradiction
    · exact skipped h
  · split at h
    · split at h
      · rename_i n tail read
        cases Option.some.inj h
        exact Nat.le_of_lt (readVarint?_length read)
      · contradiction
    · exact skipped h
  · exact skipped h

def takeFields? (t : MessageType) (m : Message) (s : Bytes) : Option Message :=
  match s with
  | [] => some m
  | b :: tail =>
    match _h : readTag? (b :: tail) with
    | none => none
    | some (tag, rest) =>
      if tag.number < 0x2000_0000 then
        match _h' : takeField? t m tag rest with
        | none => none
        | some (m, rest) => takeFields? t m rest
      else none
termination_by s.length
decreasing_by
  have := readTag?_length _h
  have := takeField?_length _h'
  omega

def decode? (t : MessageType) (s : Bytes) : Option Message := takeFields? t (blank t) s

def encodeText (number : Nat) (s : Bytes) : Bytes :=
  Tag.encode ⟨number, 2⟩ ++ varint s.length ++ s

def encodeField (p : Field × FieldValue) : Bytes :=
  if p.2.isZero then []
  else
    match p.2 with
    | .flag _ => Tag.encode ⟨p.1.number, 0⟩ ++ varint 1
    | .text s => encodeText p.1.number s
    | .texts ss => ss.flatMap (encodeText p.1.number)

def encode (m : Message) : Bytes := m.flatMap encodeField

end Message
end ExprMachine.Service
