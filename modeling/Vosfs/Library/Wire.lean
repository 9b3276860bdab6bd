import Mathlib.Algebra.Group.Nat.Defs
import Mathlib.Data.List.Flatten
import Mathlib.Data.List.Nodup
import Vosfs.Library.Reader

/-!
# Protocol buffers

What `protoc` generates for a message: `_InternalSerialize`, `_InternalParse` and `MergeImpl`.  All
three treat the fields alike, so that a message is given by its fields (`Format`), and a field by
its kind (`Field.uint64`, `Field.string` and so on).

The generated code calls a runtime library, which is a parameter (`Runtime`).  Of the library it
needs that a number that was written is read back (`LawfulRuntime`).

A message is written as a list of records.  Parsing what was written gives the message back
(`parseFromString_serializeAsString`).  When the bytes end early, they are refused, or give the
message of the first records (`parseFromString_take_iff`).
-/

namespace Vosfs.Wire

/-! ## The runtime library -/

/-- The functions that generated code calls. -/
class Runtime where
  writeVarint : ℕ → List UInt8
  readTag : Reader UInt8 ℕ
  /-- `ReadVarint64` -/
  readVarint : Reader UInt8 ℕ
  readSize : Reader UInt8 ℕ
  /-- Goes past a field whose tag is none of the message's. -/
  unknownFieldParse : ℕ → Reader UInt8 Unit

export Runtime (writeVarint readTag readVarint readSize unknownFieldParse)

/-- A limit that `ReadSize` checks. -/
def maxSize : ℕ :=
  2 ^ 31 - 1 - 16

/-- What is relied on: the readers of the runtime read what its writers write, within the ranges of
their types. -/
class LawfulRuntime [Runtime] : Prop where
  readTag_nil : readTag.run [] = none
  readTag_writeVarint {tag : ℕ} (hpos : 0 < tag) (hlt : tag < 2 ^ 32) :
    readTag.run (writeVarint tag) = some (tag, [])
  readVarint_nil : readVarint.run [] = none
  readVarint_writeVarint {n : ℕ} (hlt : n < 2 ^ 64) :
    readVarint.run (writeVarint n) = some (n, [])
  readSize_writeVarint {n : ℕ} (hle : n ≤ maxSize) :
    readSize.run (writeVarint n) = some (n, [])

export LawfulRuntime (readTag_nil readTag_writeVarint readVarint_nil readVarint_writeVarint
  readSize_writeVarint)

/-- A length-delimited field: the size, and then the bytes. -/
def writeBytes [Runtime] (buf : List UInt8) : List UInt8 :=
  writeVarint buf.length ++ buf

/-- Reads a length-delimited field. -/
def readBytes [Runtime] : Reader UInt8 (List UInt8) := do
  let size ← readSize
  Reader.bytes size

/-- The bytes of a string. -/
def utf8 (s : String) : List UInt8 :=
  s.toUTF8.data.toList

/-- `VerifyUTF8` -/
def ofUtf8 (buf : List UInt8) : Option String :=
  String.fromUTF8? ⟨buf.toArray⟩

/-! ## Fields -/

/-- A data member of a message. -/
structure Member (M A : Type) where
  get : M → A
  set : A → M → M
  get_set : ∀ a m, get (set a m) = a := by intros; rfl
  set_set : ∀ a b m, set a (set b m) = set a m := by intros; rfl
  set_get : ∀ m, set (get m) m = m := by intros; rfl

/-- A field of a message: how it is written, read and merged. -/
structure Field (M : Type) where
  tag : ℕ
  /-- What is written behind the tag, once for each record. -/
  payloads : M → List (List UInt8)
  /-- What is done when the tag was read. -/
  read : M → Reader UInt8 M
  /-- The field's part of `MergeImpl`, which merges its second argument into the first. -/
  merge : M → M → M
  /-- Whether the numbers fit the type of the field. -/
  inRange : M → Bool

/-- The fields of a message, in the order of their numbers. -/
structure Format (M : Type) where
  /-- The message after `Clear`. -/
  cleared : M
  fields : List (Field M)

variable [Runtime] {M N : Type}

namespace Format

/-- The records of a message, in the order of its fields. -/
def records (format : Format M) (m : M) : List (List UInt8) :=
  format.fields.flatMap fun field => (field.payloads m).map (writeVarint field.tag ++ ·)

/-- `_InternalSerialize` -/
def internalSerialize (format : Format M) (m : M) : List UInt8 :=
  (format.records m).flatten

/-- One round of `_InternalParse`. -/
def parseField (format : Format M) (m : M) : Reader UInt8 M := do
  let tag ← readTag
  match format.fields.find? fun field => field.tag == tag with
  | some field => field.read m
  | none =>
    -- the message ends here, though its bytes do not
    if tag = 0 ∨ tag % 8 = 4 then
      Reader.ofOption none
    else do
      unknownFieldParse tag
      pure m

/-- `_InternalParse`, up to the end of the bytes. -/
def internalParse (format : Format M) (m : M) (buf : List UInt8) : Option M :=
  Reader.readAll format.parseField m buf

/-- `MergeFrom` -/
def mergeFrom (format : Format M) (target source : M) : M :=
  format.fields.foldl (fun m field => field.merge m source) target

/-- Every field fits its type. -/
def inRange (format : Format M) (m : M) : Bool :=
  format.fields.all (·.inRange m)

/-- A message of more than `INT_MAX` bytes cannot be serialized. -/
def serializeAsString (format : Format M) (m : M) : List UInt8 :=
  let buf := format.internalSerialize m
  if buf.length ≤ 2 ^ 31 - 1 then buf else []

/-- `ParseFromString`: clear the message, then parse. -/
def parseFromString (format : Format M) (buf : List UInt8) : Option M :=
  format.internalParse format.cleared buf

end Format

/-! ### The kinds of fields -/

namespace Field

/-- A field that is written once, unless it is not set. -/
def scalar {A : Type} (tag : ℕ) (member : Member M A) (isSet : A → Bool)
    (write : A → List UInt8) (reader : Reader UInt8 A) (inRange : A → Bool) : Field M where
  tag := tag
  payloads m := if isSet (member.get m) then [write (member.get m)] else []
  read m := do
    let a ← reader
    pure (member.set a m)
  merge target source :=
    if isSet (member.get source) then member.set (member.get source) target else target
  inRange m := inRange (member.get m)

/-- A field `uint64`, omitted if it is 0. -/
def uint64 (number : ℕ) (member : Member M ℕ) : Field M :=
  scalar (8 * number) member (· ≠ 0) writeVarint readVarint (· < 2 ^ 64)

/-- `ReadVarint32` cuts off the upper half. -/
def uint32 (number : ℕ) (member : Member M ℕ) : Field M :=
  scalar (8 * number) member (· ≠ 0) writeVarint ((· % 2 ^ 32) <$> readVarint) (· < 2 ^ 32)

/-- A field `bool`, omitted if it is false. -/
def bool (number : ℕ) (member : Member M Bool) : Field M :=
  scalar (8 * number) member id (fun b => writeVarint b.toNat) ((· ≠ 0) <$> readVarint)
    fun _ => true

/-- A field `optional uint64`, omitted if it is not set. -/
def optionalUint64 (number : ℕ) (member : Member M (Option ℕ)) : Field M :=
  scalar (8 * number) member Option.isSome (fun n => writeVarint (n.getD 0))
    (some <$> readVarint) (Option.all (· < 2 ^ 64))

/-- A field `string`, omitted if it is empty; the bytes must be UTF-8. -/
def string (number : ℕ) (member : Member M String) : Field M :=
  scalar (8 * number + 2) member (· ≠ "") (fun s => writeBytes (utf8 s))
    (readBytes >>= fun buf => Reader.ofOption (ofUtf8 buf)) fun _ => true

/-- A field `bytes`, omitted if it is empty. -/
def bytes (number : ℕ) (member : Member M (List UInt8)) : Field M :=
  scalar (8 * number + 2) member (· ≠ []) writeBytes readBytes fun _ => true

/-- One number of a packed field. -/
def readElement (ns : List ℕ) : Reader UInt8 (List ℕ) := do
  let n ← readVarint
  pure (ns ++ [n])

/-- A `repeated uint64`, packed. -/
def packed (number : ℕ) (member : Member M (List ℕ)) : Field M where
  tag := 8 * number + 2
  payloads m :=
    if member.get m ≠ [] then [writeBytes ((member.get m).map writeVarint).flatten] else []
  read m := do
    let buf ← readBytes
    let ns ← Reader.ofOption (Reader.readAll readElement (member.get m) buf)
    pure (member.set ns m)
  merge target source := member.set (member.get target ++ member.get source) target
  inRange m := (member.get m).all (· < 2 ^ 64)

/-- The same field where it comes number by number.  It is never written so. -/
def unpacked (number : ℕ) (member : Member M (List ℕ)) : Field M where
  tag := 8 * number
  payloads _ := []
  read m := do
    let n ← readVarint
    pure (member.set (member.get m ++ [n]) m)
  merge target _ := target
  inRange _ := true

/-- A number that is read and not kept.  It is never written. -/
def ignored (number : ℕ) : Field M where
  tag := 8 * number
  payloads _ := []
  read m := do
    let _ ← readVarint
    pure m
  merge target _ := target
  inRange _ := true

/-- A `repeated` message. -/
def message (number : ℕ) (format : Format N) (member : Member M (List N)) : Field M where
  tag := 8 * number + 2
  payloads m := (member.get m).map fun n => writeBytes (format.internalSerialize n)
  read m := do
    let buf ← readBytes
    let n ← Reader.ofOption (format.internalParse format.cleared buf)
    pure (member.set (member.get m ++ [n]) m)
  merge target source := member.set (member.get target ++ member.get source) target
  inRange m := (member.get m).all format.inRange

/-- A message in a `oneof`.  Reading it goes on with the message that is there (`mutable_`). -/
def oneof (number : ℕ) (format : Format N) (get : M → Option N) (set : N → M) : Field M where
  tag := 8 * number + 2
  payloads m := (get m).toList.map fun n => writeBytes (format.internalSerialize n)
  read m := do
    let buf ← readBytes
    let n ← Reader.ofOption (format.internalParse ((get m).getD format.cleared) buf)
    pure (set n)
  merge target source :=
    match get source with
    | some n => set (format.mergeFrom ((get target).getD format.cleared) n)
    | none => target
  inRange m := (get m).all format.inRange

end Field

/-! ## Reading back what was written -/

/-- What is written for the field makes of a message what merging makes of it. -/
def Field.Lawful (field : Field M) : Prop :=
  ∀ target source, field.inRange source = true →
    (∀ payload ∈ field.payloads source, payload.length ≤ maxSize) →
    (field.payloads source).foldlM (Reader.absorb field.read) target =
      some (field.merge target source)

/-- The tags of a message tell its fields apart. -/
def validTags (tags : List ℕ) : Bool :=
  decide tags.Nodup && tags.all fun tag => 0 < tag && tag < 2 ^ 32

omit [Runtime] in
/-- A default that gives way to a value that is set. -/
@[simp] theorem ite_eq_default {A : Type} [DecidableEq A] (a default : A) :
    (if a = default then default else a) = a := by
  split
  next h => exact h.symm
  next => rfl

/-- The fields are lawful and have tags of their own, and a message can be copied by merging. -/
structure Format.Lawful (format : Format M) : Prop where
  tags : validTags (format.fields.map Field.tag) = true
  fields : ∀ field ∈ format.fields, field.Lawful
  /-- A message that is merged into a fresh one is copied. -/
  copies : ∀ m, format.mergeFrom format.cleared m = m

variable {format : Format M} {field : Field M} {m target source : M} {buf : List UInt8}

namespace Format

theorem length_of_mem_payloads (hmem : field ∈ format.fields) {payload : List UInt8}
    (hpayload : payload ∈ field.payloads m) :
    payload.length ≤ (format.internalSerialize m).length := by
  have hrecord : writeVarint field.tag ++ payload ∈ format.records m :=
    List.mem_flatMap.mpr ⟨field, hmem, List.mem_map_of_mem hpayload⟩
  calc payload.length ≤ (writeVarint field.tag ++ payload).length := by
        rw [List.length_append]
        exact Nat.le_add_left ..
    _ ≤ (format.internalSerialize m).length :=
        (List.sublist_flatten_of_mem hrecord).length_le

variable [LawfulRuntime]

omit [Runtime] [LawfulRuntime] in
theorem Lawful.nodup (hlawful : format.Lawful) : (format.fields.map Field.tag).Nodup := by
  have htags := hlawful.tags
  unfold validTags at htags
  rw [Bool.and_eq_true] at htags
  exact of_decide_eq_true htags.1

omit [Runtime] [LawfulRuntime] in
theorem Lawful.tag_range (hlawful : format.Lawful) (hmem : field ∈ format.fields) :
    0 < field.tag ∧ field.tag < 2 ^ 32 := by
  have htags := hlawful.tags
  unfold validTags at htags
  rw [Bool.and_eq_true, List.all_eq_true] at htags
  simpa using htags.2 field.tag (List.mem_map_of_mem hmem)

omit [Runtime] [LawfulRuntime] in
theorem find_tag (hnodup : (format.fields.map Field.tag).Nodup) (hmem : field ∈ format.fields) :
    (format.fields.find? fun other => other.tag == field.tag) = some field := by
  cases hfind : format.fields.find? fun other => other.tag == field.tag with
  | none => exact absurd (beq_self_eq_true _) (List.find?_eq_none.mp hfind field hmem)
  | some other =>
    have htag := List.find?_some hfind
    rw [List.inj_on_of_nodup_map hnodup (List.mem_of_find?_eq_some hfind) hmem (eq_of_beq htag)]

theorem parseField_nil : (format.parseField m).run [] = none := by
  show (readTag.run []).bind _ = none
  rw [readTag_nil, Option.bind_none]

/-- The tag leads to the field. -/
theorem run_parseField (hlawful : format.Lawful) (hmem : field ∈ format.fields)
    (payload : List UInt8) :
    (format.parseField m).run (writeVarint field.tag ++ payload) = (field.read m).run payload := by
  obtain ⟨hpos, hlt⟩ := hlawful.tag_range hmem
  show (readTag.run (writeVarint field.tag ++ payload)).bind _ = _
  rw [Reader.run_append (readTag_writeVarint hpos hlt), Option.bind_some]
  simp only [find_tag hlawful.nodup hmem, List.nil_append]

/-- The records of a field are read as its payloads are. -/
theorem foldlM_map_tag (hlawful : format.Lawful) (hmem : field ∈ format.fields)
    (payloads : List (List UInt8)) (m : M) :
    (payloads.map (writeVarint field.tag ++ ·)).foldlM (Reader.absorb format.parseField) m =
      payloads.foldlM (Reader.absorb field.read) m := by
  rw [List.foldlM_map]
  congr
  funext m payload
  unfold Reader.absorb
  rw [run_parseField hlawful hmem]

/-- The records of a message make of another message what merging makes of it. -/
theorem foldlM_records (hlawful : format.Lawful) (hrange : format.inRange source = true)
    (hsize : (format.internalSerialize source).length ≤ maxSize) (target : M) :
    (format.records source).foldlM (Reader.absorb format.parseField) target =
      some (format.mergeFrom target source) := by
  unfold records mergeFrom
  have hfields : ∀ fields ⊆ format.fields, ∀ target,
      (fields.flatMap fun field =>
        (field.payloads source).map (writeVarint field.tag ++ ·)).foldlM
          (Reader.absorb format.parseField) target =
        some (fields.foldl (fun m field => field.merge m source) target) := by
    intro fields hsubset
    induction fields with
    | nil => exact fun target => rfl
    | cons field fields ih =>
      intro target
      obtain ⟨hmem, hsubset⟩ := List.cons_subset.mp hsubset
      rw [List.flatMap_cons, List.foldlM_append, foldlM_map_tag hlawful hmem,
        hlawful.fields field hmem target source (List.all_eq_true.mp hrange field hmem)
          fun payload hpayload => Nat.le_trans (length_of_mem_payloads hmem hpayload) hsize]
      exact ih hsubset _
  exact hfields _ (List.Subset.refl _) target

/-- **Parsing what was written merges it** into the message that is there. -/
theorem internalParse_append (hlawful : format.Lawful) (hrange : format.inRange source = true)
    (hsize : (format.internalSerialize source).length ≤ maxSize) (target : M)
    (rest : List UInt8) :
    format.internalParse target (format.internalSerialize source ++ rest) =
      format.internalParse (format.mergeFrom target source) rest :=
  Reader.readAll_flatten (fun _ => parseField_nil) (foldlM_records hlawful hrange hsize target) rest

theorem internalParse_internalSerialize (hlawful : format.Lawful)
    (hrange : format.inRange source = true)
    (hsize : (format.internalSerialize source).length ≤ maxSize) (target : M) :
    format.internalParse target (format.internalSerialize source) =
      some (format.mergeFrom target source) := by
  have happend := internalParse_append hlawful hrange hsize target []
  rw [List.append_nil] at happend
  exact happend.trans (Reader.readAll_nil ..)

omit [LawfulRuntime] in
theorem serializeAsString_of_le (hsize : (format.internalSerialize m).length ≤ maxSize) :
    format.serializeAsString m = format.internalSerialize m :=
  if_pos (Nat.le_trans hsize (Nat.sub_le ..))

/-- **A message that was serialized is read back**. -/
theorem parseFromString_serializeAsString (hlawful : format.Lawful)
    (hrange : format.inRange m = true)
    (hsize : (format.internalSerialize m).length ≤ maxSize) :
    format.parseFromString (format.serializeAsString m) = some m := by
  rw [serializeAsString_of_le hsize]
  unfold parseFromString
  rw [internalParse_internalSerialize hlawful hrange hsize, hlawful.copies]

/-- The message that is left when only the first records of a message are there. -/
structure Cuts (format : Format M) (cut : M → ℕ → M) : Prop where
  records : ∀ m k, format.records (cut m k) = (format.records m).take k
  inRange : ∀ m k, format.inRange m = true → format.inRange (cut m k) = true

/-- **Bytes that end early** are read if they end with a record, and give what is left then. -/
theorem parseFromString_take_iff (hlawful : format.Lawful) {cut : M → ℕ → M}
    (hcuts : format.Cuts cut) (hrange : format.inRange m = true)
    (hsize : (format.internalSerialize m).length ≤ maxSize) {n : ℕ}
    (hn : n ≤ (format.internalSerialize m).length) {found : M} :
    format.parseFromString ((format.internalSerialize m).take n) = some found ↔
      ∃ k, n = (format.internalSerialize (cut m k)).length ∧ cut m k = found := by
  refine (Reader.readAll_take_iff (fun _ => parseField_nil)
    (foldlM_records hlawful hrange hsize format.cleared) hn).trans (exists_congr fun k => ?_)
  have hless : (format.internalSerialize (cut m k)).length ≤ maxSize := by
    refine Nat.le_trans (List.Sublist.length_le ?_) hsize
    unfold internalSerialize
    rw [hcuts.records]
    exact (List.take_sublist k _).flatten
  rw [← hcuts.records, foldlM_records hlawful (hcuts.inRange m k hrange) hless, hlawful.copies,
    Option.some.injEq]
  rfl

end Format

/-! ### Each kind of field -/

namespace Field

variable [LawfulRuntime]

theorem run_readBytes (hsize : (writeBytes buf).length ≤ maxSize) :
    readBytes.run (writeBytes buf) = some (buf, []) := by
  have hle : buf.length ≤ maxSize := by
    unfold writeBytes at hsize
    rw [List.length_append] at hsize
    exact Nat.le_trans (Nat.le_add_left ..) hsize
  show (readSize.run (writeVarint buf.length ++ buf)).bind _ = _
  rw [Reader.run_append (readSize_writeVarint hle), Option.bind_some, List.nil_append]
  simpa using Reader.run_bytes_append buf []

omit [Runtime] [LawfulRuntime] in
theorem lawful_scalar {A : Type} {tag : ℕ} {member : Member M A} {isSet inRange : A → Bool}
    {write : A → List UInt8} {reader : Reader UInt8 A}
    (hreader : ∀ a, isSet a = true → inRange a = true → (write a).length ≤ maxSize →
      reader.run (write a) = some (a, [])) :
    (scalar tag member isSet write reader inRange).Lawful := by
  intro target source hrange hsize
  unfold scalar at hrange hsize ⊢
  dsimp only at hrange hsize ⊢
  split at hsize
  next hset =>
    have hrun := hreader _ hset hrange (hsize _ List.mem_cons_self)
    have habsorb : Reader.absorb (fun m => reader >>= fun a => pure (member.set a m)) target
        (write (member.get source)) = some (member.set (member.get source) target) := by
      rw [Reader.absorb_eq_some_iff, Reader.run_bind, hrun]
      rfl
    rw [if_pos hset, if_pos hset, List.foldlM_cons, habsorb]
    rfl
  next hunset =>
    rw [if_neg hunset, if_neg hunset]
    rfl

omit [Runtime] [LawfulRuntime] in
/-- Merging a scalar field sets it, perhaps to the value it has. -/
theorem merge_scalar {A : Type} {tag : ℕ} {member : Member M A} {isSet inRange : A → Bool}
    {write : A → List UInt8} {reader : Reader UInt8 A} :
    (scalar tag member isSet write reader inRange).merge target source =
      member.set (if isSet (member.get source) then member.get source else member.get target)
        target := by
  unfold scalar
  dsimp only
  split
  next => rfl
  next => rw [member.set_get]

@[simp] theorem lawful_uint64 (number : ℕ) (member : Member M ℕ) : (uint64 number member).Lawful :=
  lawful_scalar fun _ _ hrange _ => readVarint_writeVarint (of_decide_eq_true hrange)

@[simp] theorem lawful_uint32 (number : ℕ) (member : Member M ℕ) : (uint32 number member).Lawful := by
  refine lawful_scalar fun n _ hrange _ => ?_
  have hlt : n < 2 ^ 32 := of_decide_eq_true hrange
  have hread := readVarint_writeVarint (Nat.lt_trans hlt (by decide))
  rw [Reader.run_map _ hread, Nat.mod_eq_of_lt hlt]

@[simp] theorem lawful_bool (number : ℕ) (member : Member M Bool) : (bool number member).Lawful := by
  refine lawful_scalar fun b hset _ _ => ?_
  obtain rfl : b = true := hset
  exact Reader.run_map _ (readVarint_writeVarint (by decide))

@[simp] theorem lawful_optionalUint64 (number : ℕ) (member : Member M (Option ℕ)) :
    (optionalUint64 number member).Lawful := by
  refine lawful_scalar fun n hset hrange _ => ?_
  obtain ⟨n, rfl⟩ := Option.isSome_iff_exists.mp hset
  exact Reader.run_map _ (readVarint_writeVarint (of_decide_eq_true hrange))

omit [Runtime] [LawfulRuntime] in
theorem ofUtf8_utf8 (s : String) : ofUtf8 (utf8 s) = some s := by
  unfold ofUtf8 utf8
  rw [Array.toArray_toList]
  exact dif_pos s.isValidUTF8

@[simp] theorem lawful_string (number : ℕ) (member : Member M String) :
    (string number member).Lawful := by
  refine lawful_scalar fun s _ _ hsize => ?_
  rw [Reader.run_bind, run_readBytes hsize, Option.bind_some, Reader.run_ofOption, ofUtf8_utf8]
  rfl

@[simp] theorem lawful_bytes (number : ℕ) (member : Member M (List UInt8)) :
    (bytes number member).Lawful :=
  lawful_scalar fun _ _ _ hsize => run_readBytes hsize

theorem foldlM_readElement {ns : List ℕ} (hrange : ns.all (· < 2 ^ 64) = true)
    (before : List ℕ) :
    (ns.map writeVarint).foldlM (Reader.absorb readElement) before = some (before ++ ns) := by
  induction ns generalizing before with
  | nil => rw [List.append_nil]; rfl
  | cons n ns ih =>
    rw [List.all_cons, Bool.and_eq_true] at hrange
    have hrun : (readElement before).run (writeVarint n) = some (before ++ [n], []) := by
      show (readVarint.run (writeVarint n)).bind _ = _
      rw [readVarint_writeVarint (of_decide_eq_true hrange.1)]
      rfl
    rw [List.map_cons, List.foldlM_cons, Reader.absorb_eq_some_iff.mpr hrun]
    show (ns.map writeVarint).foldlM (Reader.absorb readElement) (before ++ [n]) = _
    rw [ih hrange.2, List.append_assoc, List.singleton_append]

theorem readElement_nil (ns : List ℕ) : (readElement ns).run [] = none := by
  show (readVarint.run []).bind _ = none
  rw [readVarint_nil, Option.bind_none]

@[simp] theorem lawful_packed (number : ℕ) (member : Member M (List ℕ)) :
    (packed number member).Lawful := by
  intro target source hrange hsize
  unfold packed at hrange hsize ⊢
  dsimp only at hrange hsize ⊢
  split at hsize
  next hset =>
    have hbytes := run_readBytes (hsize _ List.mem_cons_self)
    have hread := Reader.readAll_flatten readElement_nil
      (foldlM_readElement hrange (member.get target)) []
    rw [List.append_nil, Reader.readAll_nil] at hread
    rw [if_pos hset, List.foldlM_cons, Reader.absorb_eq_some_iff.mpr]
    · rfl
    · rw [Reader.run_bind, hbytes, Option.bind_some, Reader.run_bind, Reader.run_ofOption, hread]
      rfl
  next hunset =>
    rw [if_neg hunset, Decidable.not_not.mp hunset, List.append_nil, member.set_get]
    rfl

omit [LawfulRuntime] in
@[simp] theorem lawful_unpacked (number : ℕ) (member : Member M (List ℕ)) :
    (unpacked number member).Lawful :=
  fun _ _ _ _ => rfl

omit [LawfulRuntime] in
@[simp] theorem lawful_ignored (number : ℕ) : (ignored number : Field M).Lawful :=
  fun _ _ _ _ => rfl

/-- What follows the length of a nested message is read back. -/
theorem parse_nested {format : Format N} (hlawful : format.Lawful) {n : N}
    (hrange : format.inRange n = true)
    (hsize : (writeBytes (format.internalSerialize n)).length ≤ maxSize) (target : N) :
    format.internalParse target (format.internalSerialize n) =
      some (format.mergeFrom target n) := by
  unfold writeBytes at hsize
  rw [List.length_append] at hsize
  exact Format.internalParse_internalSerialize hlawful hrange
    (Nat.le_trans (Nat.le_add_left ..) hsize) target

@[simp] theorem lawful_message (number : ℕ) {format : Format N} (hlawful : format.Lawful)
    (member : Member M (List N)) : (message number format member).Lawful := by
  intro target source hrange hsize
  unfold message at hrange hsize ⊢
  dsimp only at hrange hsize ⊢
  generalize member.get source = ns at hrange hsize ⊢
  induction ns generalizing target with
  | nil =>
    rw [List.append_nil, member.set_get]
    rfl
  | cons n ns ih =>
    rw [List.all_cons, Bool.and_eq_true] at hrange
    rw [List.map_cons, List.forall_mem_cons] at hsize
    have hparse := parse_nested hlawful hrange.1 hsize.1 format.cleared
    rw [hlawful.copies] at hparse
    rw [List.map_cons, List.foldlM_cons, Reader.absorb_eq_some_iff.mpr]
    · show (List.foldlM _ (member.set (member.get target ++ [n]) target) _ : Option M) = _
      rw [ih _ hrange.2 hsize.2, member.get_set, member.set_set, List.append_assoc,
        List.singleton_append]
    · rw [Reader.run_bind, run_readBytes hsize.1, Option.bind_some, Reader.run_bind,
        Reader.run_ofOption, hparse]
      rfl

@[simp] theorem lawful_oneof (number : ℕ) {format : Format N} (hlawful : format.Lawful)
    (get : M → Option N) (set : N → M) : (oneof number format get set).Lawful := by
  intro target source hrange hsize
  unfold oneof at hrange hsize ⊢
  dsimp only at hrange hsize ⊢
  generalize get source = found at hrange hsize ⊢
  cases found with
  | none => rfl
  | some n =>
    have hsize := hsize _ List.mem_cons_self
    have hparse := parse_nested hlawful hrange hsize ((get target).getD format.cleared)
    rw [Option.toList_some, List.map_singleton, List.foldlM_cons, Reader.absorb_eq_some_iff.mpr]
    · rfl
    · rw [Reader.run_bind, run_readBytes hsize, Option.bind_some, Reader.run_bind,
        Reader.run_ofOption, hparse]
      rfl

end Field

end Vosfs.Wire
