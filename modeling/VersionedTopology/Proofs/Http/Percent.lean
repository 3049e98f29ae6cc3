/-
  VersionedTopology.Proofs.Http.Percent

  Coded texts are read as what was coded.

  Reading a coded text turns it into bytes and goes over them from left to right. `Reads` says of
  coded characters which bytes that makes of them, in front of anything. A character that stands
  for itself and a coded byte are the two basic cases, and everything else is put together from
  them.
-/

import VersionedTopology.Http.Percent

namespace VersionedTopology

/-! ## Texts and their bytes -/

namespace Text

theorem byteArray_toList_loop (b : ByteArray) (i : Nat) (acc : List UInt8) :
    ByteArray.toList.loop b i acc = acc.reverse ++ b.data.toList.drop i := by
  induction i, acc using ByteArray.toList.loop.induct b with
  | case1 i acc hlt ih =>
    have hi : i < b.data.toList.length := by simpa using hlt
    have hget : b.get! i = b.data.toList[i] := by
      rw [Array.getElem_toList]
      exact getElem!_pos b.data i (by simpa using hlt)
    rw [ByteArray.toList.loop, if_pos hlt, ih, List.drop_eq_getElem_cons hi, hget]
    simp
  | case2 i acc hge =>
    have hi : b.data.toList.length ≤ i := by simpa using hge
    rw [ByteArray.toList.loop, if_neg hge, List.drop_eq_nil_of_le hi, List.append_nil]

theorem bytes_eq (s : String) : bytes s = s.toByteArray.data.toList := by
  rw [bytes, String.toUTF8_eq_toByteArray, ByteArray.toList, byteArray_toList_loop]
  rfl

/-- The bytes of a text are those of this text. -/
theorem ofBytes?_bytes (s : String) : ofBytes? (bytes s) = some s := by
  have hbytes : (⟨(bytes s).toArray⟩ : ByteArray) = s.toByteArray := by
    rw [bytes_eq]
  rw [ofBytes?, hbytes, String.fromUTF8?, dif_pos s.isValidUTF8]
  rfl

theorem bytes_ofList (cs : List Char) :
    bytes (String.ofList cs) = cs.flatMap String.utf8EncodeChar := by
  rw [bytes_eq, String.toByteArray_ofList, List.utf8Encode, List.data_toByteArray]

theorem bytes_singleton (c : Char) : bytes (String.singleton c) = String.utf8EncodeChar c := by
  rw [bytes_eq, String.toByteArray_singleton, List.utf8Encode_singleton, List.data_toByteArray]

/-- The byte of an ASCII character. -/
def byteOf (c : Char) : UInt8 := UInt8.ofNat c.toNat

theorem utf8EncodeChar_of_lt {c : Char} (h : c.toNat < 128) :
    String.utf8EncodeChar c = [byteOf c] := by
  have hle : c.val ≤ 0x7f := by
    rw [UInt32.le_iff_toNat_le]
    exact Nat.le_of_lt_succ h
  rw [String.utf8EncodeChar_eq_singleton (by simp [Char.utf8Size, hle])]
  rfl

theorem bytes_ofList_of_lt {cs : List Char} (h : ∀ c ∈ cs, c.toNat < 128) :
    bytes (String.ofList cs) = cs.map byteOf := by
  rw [bytes_ofList]
  induction cs with
  | nil => rfl
  | cons c cs ih =>
    obtain ⟨hc, hcs⟩ := List.forall_mem_cons.mp h
    rw [List.flatMap_cons, utf8EncodeChar_of_lt hc, ih hcs]
    rfl

theorem lt_of_all {cs : List Char} (h : cs.all (fun c => c.toNat < 128) = true) :
    ∀ c ∈ cs, c.toNat < 128 := by
  simpa using h

theorem utf8ByteSize_of_lt {s : String} (h : ∀ c ∈ s.toList, c.toNat < 128) :
    s.utf8ByteSize = s.toList.length := by
  have hbytes := bytes_ofList_of_lt h
  rw [String.ofList_toList, bytes_eq] at hbytes
  rw [← String.size_toByteArray, ← ByteArray.size_data, ← Array.length_toList, hbytes,
    List.length_map]

/-- A text without the separator is its only part. -/
theorem split_of_not_mem {separator : Char} {cs : List Char} (h : separator ∉ cs) :
    split separator cs = [cs] := by
  induction cs with
  | nil => rfl
  | cons c cs ih =>
    obtain ⟨hc, hcs⟩ := not_or.mp (mt List.mem_cons.mpr h)
    rw [split, if_neg (Ne.symm hc), ih hcs]

/-- The first part ends at the first separator. -/
theorem split_append {separator : Char} {cs : List Char} (h : separator ∉ cs) (rest : List Char) :
    split separator (cs ++ separator :: rest) = cs :: split separator rest := by
  induction cs with
  | nil => rw [List.nil_append, split, if_pos rfl]
  | cons c cs ih =>
    obtain ⟨hc, hcs⟩ := not_or.mp (mt List.mem_cons.mpr h)
    rw [List.cons_append, split, if_neg (Ne.symm hc), ih hcs]

/-- Parts between separators hold none. -/
theorem not_mem_of_mem_split {separator : Char} {cs part : List Char}
    (h : part ∈ split separator cs) : separator ∉ part := by
  induction cs generalizing part with
  | nil => simp [List.mem_singleton.mp h]
  | cons c cs ih =>
    rw [split] at h
    split at h
    · obtain rfl | hpart := List.mem_cons.mp h
      · exact List.not_mem_nil
      · exact ih hpart
    · rename_i hc
      have hhead : ∀ {rest}, separator ∉ rest → separator ∉ c :: rest := fun hrest hmem =>
        (List.mem_cons.mp hmem).elim (hc ·.symm) hrest
      split at h
      · rw [List.mem_singleton.mp h]
        exact hhead List.not_mem_nil
      · rename_i first others hsplit
        rw [hsplit] at ih
        obtain rfl | hpart := List.mem_cons.mp h
        · exact hhead (ih List.mem_cons_self)
        · exact ih (List.mem_cons_of_mem _ hpart)

end Text

namespace Http

open Text

/-! ## What coded characters are read as -/

/-- Coded characters are read as bytes, whatever follows. -/
structure Reads (cs : List Char) (bs : List UInt8) : Prop where
  ascii : ∀ c ∈ cs, c.toNat < 128
  decoded : ∀ rest, decodeBytes (cs.map byteOf ++ rest) = bs ++ decodeBytes rest

namespace Reads

theorem nil : Reads [] [] := ⟨nofun, fun _ => rfl⟩

theorem append {cs ds : List Char} {as bs : List UInt8} (hc : Reads cs as) (hd : Reads ds bs) :
    Reads (cs ++ ds) (as ++ bs) where
  ascii := List.forall_mem_append.mpr ⟨hc.ascii, hd.ascii⟩
  decoded rest := by
    rw [List.map_append, List.append_assoc, hc.decoded, hd.decoded, List.append_assoc]

theorem flatMap {α : Type} {f : α → List Char} {g : α → List UInt8} (h : ∀ a, Reads (f a) (g a))
    (as : List α) : Reads (as.flatMap f) (as.flatMap g) := by
  induction as with
  | nil => exact nil
  | cons a as ih => exact (h a).append ih

/-- A character that stands for itself. -/
theorem plain {c : Char} (hascii : c.toNat < 128) (hpercent : c ≠ '%') : Reads [c] [byteOf c] where
  ascii := by simpa using hascii
  decoded rest := by
    have hbyte : byteOf c ≠ 0x25 := by
      intro h
      have hcode : c.toNat = 37 := by
        have hmod := congrArg UInt8.toNat h
        rw [byteOf, UInt8.toNat_ofNat_of_lt' (Nat.lt_trans hascii (by decide))] at hmod
        exact hmod
      exact hpercent (Char.toNat_inj.mp hcode)
    rw [List.map_singleton, List.singleton_append, decodeBytes]
    · rfl
    · intro a b rest' hhead
      exact absurd hhead hbyte

/-- The text is read as a whole. -/
theorem decode {cs : List Char} {bs : List UInt8} (h : Reads cs bs) :
    decodeBytes (bytes (String.ofList cs)) = bs := by
  rw [bytes_ofList_of_lt h.ascii, ← List.append_nil (cs.map byteOf), h.decoded]
  exact List.append_nil bs

end Reads

/-! ## Coded bytes -/

def hexDigit (n : Nat) : Char := "0123456789ABCDEF".toList.getD n '0'

theorem hexByte_eq (b : UInt8) :
    hexByte b = ['%', hexDigit (b.toNat / 16), hexDigit (b.toNat % 16)] := rfl

theorem hexDigit_lt : ∀ n < 16, (hexDigit n).toNat < 128 := by decide

theorem hexValue_hexDigit :
    ∀ n < 16, Document.hexValue (Char.ofNat (byteOf (hexDigit n)).toNat) = some n := by decide

theorem reads_hexByte (b : UInt8) : Reads (hexByte b) [b] := by
  have hb : b.toNat < 256 := b.toNat_lt
  have hhigh : b.toNat / 16 < 16 := by omega
  have hlow : b.toNat % 16 < 16 := by omega
  have hvalue : UInt8.ofNat (16 * (b.toNat / 16) + b.toNat % 16) = b := by
    rw [Nat.div_add_mod, UInt8.ofNat_toNat]
  constructor
  · simp [hexByte_eq, hexDigit_lt _ hhigh, hexDigit_lt _ hlow]
  · intro rest
    have hpercent : byteOf '%' = 0x25 := by decide
    simp only [hexByte_eq, List.map_cons, List.map_nil, List.cons_append, List.nil_append, hpercent,
      decodeBytes, hexValue_hexDigit _ hhigh, hexValue_hexDigit _ hlow, hvalue]

/-- Characters of a coded byte. -/
theorem mem_hexByte {b : UInt8} {c : Char} (h : c ∈ hexByte b) :
    c ∈ "%0123456789ABCDEF".toList := by
  have hall : ∀ n < 256,
      (hexByte (UInt8.ofNat n)).all ("%0123456789ABCDEF".toList.contains ·) = true := by
    decide +kernel
  have hb := List.all_eq_true.mp (hall b.toNat b.toNat_lt)
  rw [UInt8.ofNat_toNat] at hb
  exact List.contains_iff_mem.mp (hb c h)

/-! ## Segments of a path -/

/-- A set of characters that holds whatever does not stand for itself. -/
def Covers (coded : Char → Bool) : Prop := ∀ c, coded c = false → c.toNat < 128 ∧ c ≠ '%'

theorem reads_encode {coded : Char → Bool} (h : Covers coded) (cs : List Char) :
    Reads (encode coded cs) (bytes (String.ofList cs)) := by
  rw [bytes_ofList]
  refine Reads.flatMap (fun c => ?_) cs
  split
  · rw [bytes_singleton]
    have hcoded := Reads.flatMap reads_hexByte (String.utf8EncodeChar c)
    rwa [List.flatMap_singleton'] at hcoded
  · rename_i hplain
    obtain ⟨hascii, hpercent⟩ := h c (by simpa using hplain)
    rw [utf8EncodeChar_of_lt hascii]
    exact .plain hascii hpercent

/-- A name that is coded for a path is read as it was. -/
theorem decodeSegment_encode {coded : Char → Bool} (h : Covers coded) (cs : List Char) :
    decodeSegment (String.ofList (encode coded cs)) = some (String.ofList cs) := by
  rw [decodeSegment, (reads_encode h cs).decode, ofBytes?_bytes]

/-- A coded text holds what coded bytes are written with, and what needs no coding of the text. -/
theorem mem_encode {coded : Char → Bool} {cs : List Char} {c : Char} (h : c ∈ encode coded cs) :
    coded c = false ∧ c ∈ cs ∨ c ∈ "%0123456789ABCDEF".toList := by
  obtain ⟨x, hmem, hx⟩ := List.mem_flatMap.mp h
  split at hx
  · obtain ⟨b, -, hb⟩ := List.mem_flatMap.mp hx
    exact .inr (mem_hexByte hb)
  · rename_i hplain
    obtain rfl := List.mem_singleton.mp hx
    exact .inl ⟨by simpa using hplain, hmem⟩

/-! ## Queries -/

/-- How a byte is written in a query. -/
def formByte (b : UInt8) : List Char :=
  let c := Char.ofNat b.toNat
  if b < 128 && (c.isAlphanum || c = '*' || c = '-' || c = '.' || c = '_') then [c]
  else if c = ' ' then ['+']
  else hexByte b

theorem formEncode_eq (s : String) :
    formEncode s = String.ofList ((bytes s).flatMap formByte) := rfl

/-- A plus stands for a blank. -/
def unplus (c : Char) : Char := if c = '+' then ' ' else c

theorem formByte_cases : ∀ n < 256,
    (formByte (UInt8.ofNat n)).map unplus = hexByte (UInt8.ofNat n) ∨
    (formByte (UInt8.ofNat n)).map unplus = [Char.ofNat n] ∧ n < 128 ∧ Char.ofNat n ≠ '%' ∧
      (Char.ofNat n).toNat = n := by
  decide +kernel

theorem reads_formByte (b : UInt8) : Reads ((formByte b).map unplus) [b] := by
  -- a blank is a plus, which is undone before anything is read
  have hcases := formByte_cases b.toNat b.toNat_lt
  rw [UInt8.ofNat_toNat] at hcases
  obtain hhex | ⟨hplain, hlt, hpercent, hcode⟩ := hcases
  · rw [hhex]
    exact reads_hexByte b
  · have hbyte : byteOf (Char.ofNat b.toNat) = b := by
      rw [byteOf, hcode, UInt8.ofNat_toNat]
    rw [hplain]
    have hreads := Reads.plain (hcode.symm ▸ hlt) hpercent
    rwa [hbyte] at hreads

/-- **A field of a query is read as it was.** -/
theorem formDecode_formEncode (s : String) : formDecode (formEncode s).toList = s := by
  have hreads : Reads ((formEncode s).toList.map unplus) (bytes s) := by
    rw [formEncode_eq, String.toList_ofList, List.map_flatMap]
    have hbytes := Reads.flatMap reads_formByte (bytes s)
    rwa [List.flatMap_singleton'] at hbytes
  have hdecode : decodeBytes (bytes (String.ofList ((formEncode s).toList.map unplus))) = bytes s :=
    hreads.decode
  change ofBytesLenient (decodeBytes (bytes (String.ofList ((formEncode s).toList.map unplus)))) = s
  rw [hdecode, ofBytesLenient, ofBytes?_bytes]

theorem formByte_plain : ∀ n < 256,
    (formByte (UInt8.ofNat n)).all (fun c => !"&=#?".toList.contains c) = true := by
  decide +kernel

/-- What separates and ends fields is coded within them. -/
theorem not_mem_formEncode {s : String} {c : Char} (h : c ∈ "&=#?".toList) :
    c ∉ (formEncode s).toList := by
  intro hc
  rw [formEncode_eq, String.toList_ofList] at hc
  obtain ⟨b, -, hb⟩ := List.mem_flatMap.mp hc
  have hplain := List.all_eq_true.mp (formByte_plain b.toNat b.toNat_lt)
  rw [UInt8.ofNat_toNat] at hplain
  have hc := hplain c hb
  rw [List.contains_iff_mem.mpr h] at hc
  exact absurd hc (by simp)

/-- A query of one field. -/
theorem queryPairs_field (name value : String) :
    queryPairs (formEncode name ++ "=" ++ formEncode value) = [(name, value)] := by
  have hlist : (formEncode name ++ "=" ++ formEncode value).toList =
      (formEncode name).toList ++ '=' :: (formEncode value).toList := by
    simp
  have hamp : '&' ∉ (formEncode name).toList ++ '=' :: (formEncode value).toList := by
    simp [not_mem_formEncode]
  have hname : ∀ c ∈ (formEncode name).toList, (decide (c ≠ '=')) = true := by
    intro c hc
    refine decide_eq_true fun heq => ?_
    exact not_mem_formEncode (by decide) (heq ▸ hc)
  have hsplit : (Text.split '&' (formEncode name ++ "=" ++ formEncode value).toList).filter
      (fun part => !part.isEmpty) =
        [(formEncode name).toList ++ '=' :: (formEncode value).toList] := by
    rw [hlist, split_of_not_mem hamp]
    simp
  rw [queryPairs, hsplit, List.map_singleton, List.takeWhile_append_of_pos hname,
    List.dropWhile_append_of_pos hname, List.takeWhile_cons_of_neg (by simp),
    List.dropWhile_cons_of_neg (by simp), List.append_nil, List.drop_one, List.tail_cons,
    formDecode_formEncode, formDecode_formEncode]

end Http
end VersionedTopology
