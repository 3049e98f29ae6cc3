/-
  VersionedTopology.Proofs.Json.Text

  Reading back what was printed.

  The text of a value without doubles, as long as its integers fit 64 bits, is scanned as the
  document of that value, with nothing left over. The scan goes along the value: a string is
  closed by the quote that the printer puts, a number ends where no digit, point or exponent
  follows, and a bracket ends at its own end. Whatever follows a printed value inside a bracket
  is a comma or a closing bracket, which is all that the lemmas ask of the rest of a text.
-/

import Mathlib.Tactic.IntervalCases
import VersionedTopology.Json.Printer
import VersionedTopology.Proofs.Json.Shape

namespace VersionedTopology
namespace Document

/-- The rest of a text after a printed value: a comma, a closing bracket, or nothing. -/
def Delimited (rest : List Char) : Prop :=
  ∀ c, rest.head? = some c → c = ',' ∨ c = ']' ∨ c = '}'

@[simp] theorem delimited_nil : Delimited [] := by
  simp [Delimited]

theorem delimited_cons {c : Char} (h : c = ',' ∨ c = ']' ∨ c = '}') (cs : List Char) :
    Delimited (c :: cs) := by
  intro d hd
  simp only [List.head?_cons, Option.some.injEq] at hd
  exact hd ▸ h

theorem skipBlanks_cons {c : Char} (h : isBlank c = false) (cs : List Char) :
    skipBlanks (c :: cs) = c :: cs := by
  simp [skipBlanks, h]

/-! ## Digits -/

theorem digitChar_value : ∀ d < 10, (Nat.digitChar d).toNat - 48 = d := by decide

theorem isDigit_digitChar : ∀ d < 10, (Nat.digitChar d).isDigit = true := by decide

theorem digitChar_ne_zero : ∀ d < 10, 0 < d → Nat.digitChar d ≠ '0' := by decide

theorem extend_digit {v t d : Nat} (hd : d < 10) (hfit : v * 10 + d ≤ Number.maxUnsigned)
    (cs : List Char) :
    Significand.extend ⟨v, t, 0⟩ (Nat.digitChar d :: cs) =
      Significand.extend ⟨v * 10 + d, t + 1, 0⟩ cs := by
  rw [Significand.extend, if_pos (isDigit_digitChar d hd)]
  simp [digitChar_value d hd, hfit]

/-- All digits of a number that fits 64 bits go into the significand. -/
theorem extend_toDigits (n : Nat) (h : n ≤ Number.maxUnsigned) (cs : List Char) :
    Significand.extend ⟨0, 0, 0⟩ (Nat.toDigits 10 n ++ cs) =
      Significand.extend ⟨n, (Nat.toDigits 10 n).length, 0⟩ cs := by
  induction n using Nat.strongRecOn generalizing cs with
  | ind n ih =>
    by_cases hsmall : n < 10
    · rw [Nat.toDigits_of_lt_base hsmall, List.singleton_append,
        extend_digit hsmall (by omega)]
      simp
    · have hlt : n / 10 < n := by omega
      rw [Nat.toDigits_of_base_le (by decide) (by omega), List.append_assoc,
        ih (n / 10) hlt (by omega), List.singleton_append,
        extend_digit (Nat.mod_lt n (by decide)) (by omega)]
      simp [Nat.div_add_mod']

/-- The first digit of a number is zero only if the number is. -/
theorem head?_toDigits_ne_zero {n : Nat} (h : 0 < n) : (Nat.toDigits 10 n).head? ≠ some '0' := by
  induction n using Nat.strongRecOn with
  | ind n ih =>
    by_cases hsmall : n < 10
    · rw [Nat.toDigits_of_lt_base hsmall, List.head?_cons]
      simpa using digitChar_ne_zero n hsmall h
    · have hdigits := ih (n / 10) (by omega) (by omega)
      rw [Nat.toDigits_of_base_le (by decide) (by omega), List.head?_append]
      cases hhead : (Nat.toDigits 10 (n / 10)).head? with
      | none =>
        have hpos := Nat.length_toDigits_pos (b := 10) (n := n / 10)
        rw [List.head?_eq_none_iff] at hhead
        simp [hhead] at hpos
      | some c => simpa [hhead] using hdigits

theorem exists_toDigits_cons (n : Nat) :
    ∃ c cs, Nat.toDigits 10 n = c :: cs ∧ c.isDigit = true ∧ (0 < n → c ≠ '0') := by
  cases hdigits : Nat.toDigits 10 n with
  | nil =>
    have hpos := Nat.length_toDigits_pos (b := 10) (n := n)
    simp [hdigits] at hpos
  | cons c cs =>
    have hmem : c ∈ Nat.toDigits 10 n := hdigits ▸ List.mem_cons_self
    refine ⟨c, cs, rfl, Nat.isDigit_of_mem_toDigits (by decide) (by decide) hmem, fun h => ?_⟩
    have hhead := head?_toDigits_ne_zero h
    rw [hdigits] at hhead
    simpa using hhead

theorem isBlank_of_isDigit {c : Char} (h : c.isDigit = true) : isBlank c = false := by
  by_contra hblank
  simp only [isBlank, Bool.not_eq_false, Bool.or_eq_true, decide_eq_true_eq] at hblank
  obtain ((rfl | rfl) | rfl) | rfl := hblank <;> exact absurd h (by decide)

/-! ## Numbers -/

theorem not_isDigit_of_delimited {rest : List Char} (h : Delimited rest) {c : Char}
    {cs : List Char} (hrest : rest = c :: cs) : c.isDigit = false := by
  obtain rfl | rfl | rfl := h c (by rw [hrest]; rfl) <;> rfl

theorem extend_of_delimited {rest : List Char} (h : Delimited rest) (s : Significand) :
    Significand.extend s rest = (s, rest) := by
  cases rest with
  | nil => rfl
  | cons c cs => rw [Significand.extend, not_isDigit_of_delimited h rfl]; simp

theorem scanFraction_of_delimited {rest : List Char} (h : Delimited rest) (negative : Bool)
    (v t : Nat) :
    scanFraction negative ⟨v, t, 0⟩ rest =
      (.number (some (Number.ofInteger negative v)), rest) := by
  cases rest with
  | nil => rfl
  | cons c cs => obtain rfl | rfl | rfl := h c rfl <;> rfl

/-- The digits of a number that fits 64 bits are read as that number. -/
theorem scanNumber_toDigits {n : Nat} (hn : n ≤ Number.maxUnsigned) (negative : Bool)
    {rest : List Char} (h : Delimited rest) :
    scanNumber negative (Nat.toDigits 10 n ++ rest) =
      (.number (some (Number.ofInteger negative n)), rest) := by
  by_cases hzero : n = 0
  · subst hzero
    rw [Nat.toDigits_zero, List.singleton_append]
    cases rest with
    | nil => exact scanFraction_of_delimited h negative 0 1
    | cons c cs =>
      simp only [scanNumber, not_isDigit_of_delimited h rfl]
      exact scanFraction_of_delimited h negative 0 1
  · obtain ⟨c, cs, hdigits, hdigit, hfirst⟩ := exists_toDigits_cons n
    have hextend := extend_toDigits n hn rest
    rw [extend_of_delimited h] at hextend
    rw [hdigits] at hextend ⊢
    rw [List.cons_append] at hextend ⊢
    unfold scanNumber
    split
    · rename_i heq
      exact absurd heq (by simp)
    · rename_i heq
      simp only [List.cons.injEq] at heq
      exact absurd heq.1 (hfirst (Nat.pos_of_ne_zero hzero))
    · rename_i d ds _ heq
      simp only [List.cons.injEq] at heq
      obtain ⟨rfl, rfl⟩ := heq
      rw [if_pos hdigit, hextend]
      exact scanFraction_of_delimited h negative n _

theorem text_int (n : Int) :
    (Number.int n).text.toList =
      if 0 ≤ n then Nat.toDigits 10 n.toNat else '-' :: Nat.toDigits 10 (-n).toNat := by
  rw [Number.text, Int.toString_eq_repr, Int.repr_eq_if]
  split
  · exact Nat.toList_repr
  · rw [String.toList_append, Nat.toList_repr]
    rfl

/-! ## Strings -/

theorem hexValue_hexDigit : ∀ d < 16, hexValue (Json.hexDigit d) = some d := by decide

theorem utf8Size_hexDigit : ∀ d < 16, (Json.hexDigit d).utf8Size = 1 := by decide

theorem hexEscape_control {n : Nat} (h : n < 256) (cs : List Char) :
    hexEscape ('0' :: '0' :: Json.hexDigit (n / 16) :: Json.hexDigit (n % 16) :: cs) =
      .ok (n, cs) := by
  have hzero : hexValue '0' = some 0 := by decide
  have hsize : ('0' : Char).utf8Size = 1 := by decide
  have hlow := Nat.mod_lt n (show 0 < 16 by decide)
  have hhigh : n / 16 < 16 := by omega
  have hvalue : n / 16 * 16 + n % 16 = n := Nat.div_add_mod' n 16
  simp [hexEscape, utf8Size, hzero, hsize, hexValue_hexDigit _ hlow, hexValue_hexDigit _ hhigh,
    utf8Size_hexDigit _ hlow, utf8Size_hexDigit _ hhigh, hvalue]

/-- An escaped character is read as that character. -/
theorem scanString_escape (fuel : Nat) (c : Char) (cs acc : List Char) :
    scanString (fuel + 1) (Json.escape c ++ cs) acc none = scanString fuel cs (c :: acc) none := by
  by_cases hquote : c = '"'
  · subst hquote; rfl
  by_cases hback : c = '\\'
  · subst hback; rfl
  by_cases hnewline : c = '\n'
  · subst hnewline; rfl
  by_cases hreturn : c = '\r'
  · subst hreturn; rfl
  by_cases htab : c = '\t'
  · subst htab; rfl
  by_cases hbackspace : c.toNat = 8
  · obtain rfl : c = Char.ofNat 8 := by rw [← hbackspace, Char.ofNat_toNat]
    rfl
  by_cases hfeed : c.toNat = 12
  · obtain rfl : c = Char.ofNat 12 := by rw [← hfeed, Char.ofNat_toNat]
    rfl
  by_cases hcontrol : c.toNat < 32
  · have hescape := hexEscape_control (n := c.toNat) (by omega) cs
    have hhigh : isHighSurrogate c.toNat = false := by simp [isHighSurrogate]; omega
    have hlow : isLowSurrogate c.toNat = false := by simp [isLowSurrogate]; omega
    simp [Json.escape, hquote, hback, hnewline, hreturn, htab, hbackspace, hfeed, hcontrol,
      scanString, hescape, hhigh, hlow]
  · -- every other character stands for itself
    simp [Json.escape, hquote, hback, hnewline, hreturn, htab, hbackspace, hfeed, hcontrol,
      scanString]

theorem scanString_escaped {fuel : Nat} {cs : List Char} (h : cs.length < fuel)
    (acc rest : List Char) :
    scanString fuel (cs.flatMap Json.escape ++ '"' :: rest) acc none =
      .closed (some (String.ofList (acc.reverse ++ cs))) rest := by
  induction cs generalizing fuel acc with
  | nil =>
    obtain ⟨fuel, rfl⟩ := Nat.exists_eq_add_of_lt h
    simp [scanString]
  | cons c cs ih =>
    obtain ⟨fuel, rfl⟩ : ∃ f, fuel = f + 1 := ⟨fuel - 1, by omega⟩
    simp only [List.length_cons] at h
    rw [List.flatMap_cons, List.append_assoc, scanString_escape, ih (by omega)]
    simp

end Document

/-! ## Printed values -/

namespace Json

/-- A character that needs no escape stands for itself. -/
theorem escape_of_plain {c : Char}
    (h : (c = '"' || c = '\\' || decide (c.toNat < 32)) = false) : escape c = [c] := by
  simp only [Bool.or_eq_false_iff, decide_eq_false_iff_not, Nat.not_lt] at h
  obtain ⟨⟨hquote, hback⟩, hlarge⟩ := h
  have hcontrol : ∀ d : Char, d.toNat < 32 → c ≠ d := by
    rintro d hd rfl
    omega
  have hnewline := hcontrol '\n' (by decide)
  have hreturn := hcontrol '\r' (by decide)
  have htab := hcontrol '\t' (by decide)
  have hbackspace : c.toNat ≠ 8 := by omega
  have hfeed : c.toNat ≠ 12 := by omega
  simp [escape, hquote, hback, hnewline, hreturn, htab, hbackspace, hfeed, hlarge]

/-- A string in quotes is escaped character by character. -/
theorem quote_toList (s : String) :
    (quote s).toList = '"' :: (s.toList.flatMap escape ++ ['"']) := by
  rw [quote]
  split
  · simp
  · rename_i hplain
    have hself : s.toList.flatMap escape = s.toList := by
      rw [String.any, String.contains_bool_eq, Bool.not_eq_true, List.any_eq_false] at hplain
      rw [List.flatMap_congr (g := fun c => [c]) fun c hc =>
        escape_of_plain (by simpa using hplain c hc)]
      simp
    simp [hself]

theorem compact_array (xs : List Json) :
    (compact (.array xs)).toList = '[' :: ((compactItems xs).toList ++ [']']) := by
  rw [compact, String.toList_append, String.toList_append]
  rfl

theorem compact_object (ms : List (String × Json)) :
    (compact (.object ms)).toList = '{' :: ((compactMembers ms).toList ++ ['}']) := by
  rw [compact, String.toList_append, String.toList_append]
  rfl

/-- The text of the items after the first one. -/
def moreItems : List Json → List Char
  | [] => []
  | x :: xs => ',' :: (compactItems (x :: xs)).toList

/-- The text of the members after the first one. -/
def moreMembers : List (String × Json) → List Char
  | [] => []
  | m :: ms => ',' :: (compactMembers (m :: ms)).toList

theorem compactItems_cons (x : Json) (xs : List Json) :
    (compactItems (x :: xs)).toList = x.compact.toList ++ moreItems xs := by
  cases xs with
  | nil => simp [compactItems, moreItems]
  | cons y ys => simp [compactItems, moreItems]

theorem compactMembers_cons (k : String) (v : Json) (ms : List (String × Json)) :
    (compactMembers ((k, v) :: ms)).toList =
      (quote k).toList ++ ':' :: (v.compact.toList ++ moreMembers ms) := by
  cases ms with
  | nil => simp [compactMembers, moreMembers]
  | cons m ms => simp [compactMembers, moreMembers]

/-- A printed value starts with a character that is neither blank nor a closing bracket. -/
theorem exists_compact_cons (j : Json) (hexact : j.Exact) :
    ∃ c cs, j.compact.toList = c :: cs ∧ Document.isBlank c = false ∧ c ≠ ']' := by
  cases j with
  | null => exact ⟨'n', _, rfl, by decide⟩
  | bool b =>
    cases b with
    | true => exact ⟨'t', _, rfl, by decide⟩
    | false => exact ⟨'f', _, rfl, by decide⟩
  | number n =>
    cases n with
    | double bits => exact absurd hexact (not_exact_double bits)
    | int n =>
      rw [compact, Document.text_int]
      split
      · obtain ⟨c, cs, hdigits, hdigit, -⟩ := Document.exists_toDigits_cons n.toNat
        refine ⟨c, cs, hdigits, Document.isBlank_of_isDigit hdigit, ?_⟩
        rintro rfl
        exact absurd hdigit (by decide)
      · exact ⟨'-', _, rfl, by decide⟩
  | string s => exact ⟨'"', _, quote_toList s, by decide⟩
  | array xs => exact ⟨'[', _, compact_array xs, by decide⟩
  | object ms => exact ⟨'{', _, compact_object ms, by decide⟩

end Json

namespace Document

theorem length_le_escape (cs : List Char) : cs.length ≤ (cs.flatMap Json.escape).length := by
  induction cs with
  | nil => simp
  | cons c cs ih =>
    have hone : 1 ≤ (Json.escape c).length := by
      simp only [Json.escape]
      split_ifs <;> simp
    rw [List.flatMap_cons, List.length_append, List.length_cons]
    omega

/-- A value that starts with a digit is a number. -/
theorem scanValue_digit (fuel : Nat) {c : Char} (h : c.isDigit = true) (cs : List Char)
    {n : Option Number} {rest : List Char}
    (hscan : scanNumber false (c :: cs) = (.number n, rest)) :
    scanValue (fuel + 1) (c :: cs) = (.number n, rest, false) := by
  have hne : ∀ d : Char, d.isDigit = false → c ≠ d := by
    rintro d hd rfl
    exact absurd h (by simp [hd])
  have hn := hne 'n' (by decide)
  have ht := hne 't' (by decide)
  have hf := hne 'f' (by decide)
  have hminus := hne '-' (by decide)
  have hquote := hne '"' (by decide)
  have hbracket := hne '[' (by decide)
  have hbrace := hne '{' (by decide)
  simp [scanValue, skipBlanks_cons (isBlank_of_isDigit h), h, hscan]

theorem scanValue_string {fuel : Nat} (hpos : 0 < fuel) (s : String) (rest : List Char) :
    scanValue fuel ((Json.quote s).toList ++ rest) = (.string (some s), rest, false) := by
  obtain ⟨fuel, rfl⟩ : ∃ f, fuel = f + 1 := ⟨fuel - 1, by omega⟩
  have hlength := length_le_escape s.toList
  have hfuel : s.toList.length < (s.toList.flatMap Json.escape ++ '"' :: rest).length + 1 := by
    rw [List.length_append]
    omega
  have hscan := scanString_escaped hfuel [] rest
  rw [Json.quote_toList, List.cons_append, List.append_assoc, List.singleton_append]
  simp only [scanValue, skipBlanks_cons (show isBlank '"' = false by decide), hscan]
  simp

theorem scanValue_int {fuel : Nat} (hfuel : 0 < fuel) {n : Int} (hn : (Number.int n).InRange)
    {rest : List Char} (hrest : Delimited rest) :
    scanValue fuel ((Number.int n).text.toList ++ rest) =
      (.number (some (.int n)), rest, false) := by
  obtain ⟨fuel, rfl⟩ : ∃ f, fuel = f + 1 := ⟨fuel - 1, by omega⟩
  obtain ⟨hlow, hhigh⟩ := hn
  have hmax : Number.maxUnsigned = 18446744073709551615 := rfl
  rw [text_int]
  split
  · rename_i hsign
    have hread := scanNumber_toDigits (n := n.toNat) (by omega) false hrest
    obtain ⟨c, cs, hdigits, hdigit, -⟩ := exists_toDigits_cons n.toNat
    rw [hdigits, List.cons_append] at hread ⊢
    have hvalue : Number.ofInteger false n.toNat = .int n := by
      simp [Number.ofInteger, Int.toNat_of_nonneg hsign]
    rw [hvalue] at hread
    exact scanValue_digit fuel hdigit _ hread
  · rename_i hsign
    have hread := scanNumber_toDigits (n := (-n).toNat) (by omega) true hrest
    have hvalue : Number.ofInteger true (-n).toNat = .int n := by
      rw [Number.ofInteger, if_pos rfl, if_neg (by omega)]
      congr 1
      omega
    rw [hvalue] at hread
    rw [List.cons_append]
    simp [scanValue, skipBlanks_cons (show isBlank '-' = false by decide), hread]

/-- A value whose text is scanned as its document, whatever follows. -/
def Scans (j : Json) : Prop :=
  ∀ fuel rest, j.compact.toList.length ≤ fuel → Delimited rest →
    scanValue fuel (j.compact.toList ++ rest) = (ofJson j, rest, false)

theorem delimited_moreItems (xs : List Json) (rest : List Char) :
    Delimited (Json.moreItems xs ++ ']' :: rest) := by
  cases xs with
  | nil => exact delimited_cons (.inr (.inl rfl)) rest
  | cons x xs => exact delimited_cons (.inl rfl) _

theorem delimited_moreMembers (ms : List (String × Json)) (rest : List Char) :
    Delimited (Json.moreMembers ms ++ '}' :: rest) := by
  cases ms with
  | nil => exact delimited_cons (.inr (.inr rfl)) rest
  | cons m ms => exact delimited_cons (.inl rfl) _

theorem scanItems_compact {x : Json} {xs : List Json} {fuel : Nat}
    (h : ∀ y ∈ x :: xs, Scans y)
    (hfuel : (Json.compactItems (x :: xs)).toList.length < fuel) (rest : List Char) :
    scanItems fuel ((Json.compactItems (x :: xs)).toList ++ ']' :: rest) =
      ((x :: xs).map ofJson, none, rest, false) := by
  induction xs generalizing x fuel with
  | nil =>
    obtain ⟨fuel, rfl⟩ : ∃ f, fuel = f + 1 := ⟨fuel - 1, by omega⟩
    rw [Json.compactItems_cons, List.length_append] at hfuel
    have hx := h x List.mem_cons_self fuel _ (by omega) (delimited_moreItems [] rest)
    rw [Json.compactItems_cons, List.append_assoc, scanItems, hx]
    rfl
  | cons y ys ih =>
    obtain ⟨fuel, rfl⟩ : ∃ f, fuel = f + 1 := ⟨fuel - 1, by omega⟩
    rw [Json.compactItems_cons, List.length_append] at hfuel
    have hx := h x List.mem_cons_self fuel _ (by omega) (delimited_moreItems (y :: ys) rest)
    have hmore : (Json.moreItems (y :: ys)).length =
        (Json.compactItems (y :: ys)).toList.length + 1 := by simp [Json.moreItems]
    have hys := ih (fun z hz => h z (List.mem_cons_of_mem _ hz))
      (show (Json.compactItems (y :: ys)).toList.length < fuel by omega)
    rw [Json.compactItems_cons, List.append_assoc, scanItems, hx]
    simp only [Json.moreItems, List.cons_append,
      skipBlanks_cons (show isBlank ',' = false by decide), hys]
    simp

/-- The scan of a member comes to the end of its value. -/
theorem scanMembers_member {fuel : Nat} {k : String} {v : Json} (h : Scans v)
    (hfuel : v.compact.toList.length ≤ fuel) {rest : List Char} (hrest : Delimited rest) :
    scanMembers (fuel + 1) ((Json.quote k).toList ++ ':' :: (v.compact.toList ++ rest)) =
      match skipBlanks rest with
      | [] => ([(some k, ofJson v)], some .truncated, [], true)
      | '}' :: rest => ([(some k, ofJson v)], none, rest, false)
      | ',' :: rest =>
        let (members, ending, rest, stop) := scanMembers fuel rest
        ((some k, ofJson v) :: members, ending, rest, stop)
      | rest => ([(some k, ofJson v)], some .malformed, rest, true) := by
  have hlength := length_le_escape k.toList
  have hroom : k.toList.length < (k.toList.flatMap Json.escape ++
      '"' :: ':' :: (v.compact.toList ++ rest)).length + 1 := by
    rw [List.length_append]
    omega
  have hkey := scanString_escaped hroom [] (':' :: (v.compact.toList ++ rest))
  rw [Json.quote_toList, List.cons_append, List.append_assoc, List.singleton_append]
  -- what follows the value decides how the scan goes on
  split <;>
    simp only [scanMembers, skipBlanks_cons (show isBlank '"' = false by decide),
      skipBlanks_cons (show isBlank ':' = false by decide), h fuel rest hfuel hrest,
      List.reverse_nil, List.nil_append, String.ofList_toList, Bool.false_eq_true, reduceIte, *]

theorem scanMembers_compact {m : String × Json} {ms : List (String × Json)} {fuel : Nat}
    (h : ∀ y ∈ m :: ms, Scans y.2)
    (hfuel : (Json.compactMembers (m :: ms)).toList.length < fuel) (rest : List Char) :
    scanMembers fuel ((Json.compactMembers (m :: ms)).toList ++ '}' :: rest) =
      ((m :: ms).map fun m => (some m.1, ofJson m.2), none, rest, false) := by
  induction ms generalizing m fuel with
  | nil =>
    obtain ⟨fuel, rfl⟩ : ∃ f, fuel = f + 1 := ⟨fuel - 1, by omega⟩
    obtain ⟨k, v⟩ := m
    rw [Json.compactMembers_cons, List.length_append, List.length_cons, List.length_append] at hfuel
    rw [Json.compactMembers_cons, List.append_assoc, List.cons_append, List.append_assoc,
      scanMembers_member (h (k, v) List.mem_cons_self)
        (show v.compact.toList.length ≤ fuel by omega) (delimited_moreMembers [] rest)]
    rfl
  | cons n ms ih =>
    obtain ⟨fuel, rfl⟩ : ∃ f, fuel = f + 1 := ⟨fuel - 1, by omega⟩
    obtain ⟨k, v⟩ := m
    rw [Json.compactMembers_cons, List.length_append, List.length_cons, List.length_append] at hfuel
    have hmore : (Json.moreMembers (n :: ms)).length =
        (Json.compactMembers (n :: ms)).toList.length + 1 := by simp [Json.moreMembers]
    have hms := ih (fun y hy => h y (List.mem_cons_of_mem _ hy))
      (show (Json.compactMembers (n :: ms)).toList.length < fuel by omega)
    rw [Json.compactMembers_cons, List.append_assoc, List.cons_append, List.append_assoc,
      scanMembers_member (h (k, v) List.mem_cons_self)
        (show v.compact.toList.length ≤ fuel by omega) (delimited_moreMembers (n :: ms) rest)]
    simp only [Json.moreMembers, List.cons_append,
      skipBlanks_cons (show isBlank ',' = false by decide), hms]
    simp

/-- The text of a value is scanned as the document of that value. -/
theorem scans {j : Json} (hexact : j.Exact) (hj : j.Regular) : Scans j := by
  induction j using Json.ind with
  | null =>
    intro fuel rest hfuel hrest
    obtain ⟨fuel, rfl⟩ : ∃ f, fuel = f + 1 := ⟨fuel - 1, by simp [Json.compact] at hfuel; omega⟩
    rfl
  | bool b =>
    intro fuel rest hfuel hrest
    obtain ⟨fuel, rfl⟩ : ∃ f, fuel = f + 1 :=
      ⟨fuel - 1, by cases b <;> simp [Json.compact] at hfuel <;> omega⟩
    cases b <;> rfl
  | number n =>
    intro fuel rest hfuel hrest
    obtain ⟨c, cs, hfirst, -⟩ := Json.exists_compact_cons (.number n) hexact
    rw [hfirst, List.length_cons] at hfuel
    cases n with
    | double bits => exact absurd hexact (Json.not_exact_double bits)
    | int n => exact scanValue_int (by omega) (Json.regular_number.mp hj) hrest
  | string s =>
    intro fuel rest hfuel hrest
    rw [Json.compact, Json.quote_toList, List.length_cons] at hfuel
    exact scanValue_string (by omega) s rest
  | array xs ih =>
    intro fuel rest hfuel hrest
    rw [Json.exact_array] at hexact
    rw [Json.regular_array] at hj
    rw [Json.compact_array, List.length_cons, List.length_append] at hfuel
    obtain ⟨fuel, rfl⟩ : ∃ f, fuel = f + 1 := ⟨fuel - 1, by omega⟩
    rw [Json.compact_array, List.cons_append, List.append_assoc, List.singleton_append]
    cases xs with
    | nil => rfl
    | cons x xs =>
      obtain ⟨c, cs, hfirst, hblank, hbracket⟩ :=
        Json.exists_compact_cons x (hexact x List.mem_cons_self)
      have hroom : (Json.compactItems (x :: xs)).toList.length < fuel := by
        simp only [List.length_singleton] at hfuel
        omega
      have hitems := scanItems_compact (fun y hy => ih y hy (hexact y hy) (hj y hy)) hroom rest
      rw [Json.compactItems_cons, hfirst] at hitems ⊢
      simp only [List.cons_append, List.append_assoc] at hitems ⊢
      simp [scanValue, skipBlanks_cons (show isBlank '[' = false by decide),
        skipBlanks_cons hblank, hbracket, hitems, ofJson]
  | object ms ih =>
    intro fuel rest hfuel hrest
    rw [Json.exact_object] at hexact
    rw [Json.regular_object] at hj
    rw [Json.compact_object, List.length_cons, List.length_append] at hfuel
    obtain ⟨fuel, rfl⟩ : ∃ f, fuel = f + 1 := ⟨fuel - 1, by omega⟩
    rw [Json.compact_object, List.cons_append, List.append_assoc, List.singleton_append]
    cases ms with
    | nil => rfl
    | cons m ms =>
      obtain ⟨k, v⟩ := m
      have hroom : (Json.compactMembers ((k, v) :: ms)).toList.length < fuel := by
        simp only [List.length_singleton] at hfuel
        omega
      have hmembers := scanMembers_compact (fun y hy => ih y hy (hexact y hy) (hj.2 y hy)) hroom
        rest
      rw [Json.compactMembers_cons, Json.quote_toList] at hmembers ⊢
      simp only [List.cons_append, List.append_assoc, List.nil_append] at hmembers ⊢
      simp [scanValue, skipBlanks_cons (show isBlank '{' = false by decide),
        skipBlanks_cons (show isBlank '"' = false by decide), hmembers, ofJson]

/-- **Texts keep values.** The text of a regular value without doubles is read as the document of
that value, and nothing follows it. -/
theorem ofText_compact {j : Json} (hexact : j.Exact) (hj : j.Regular) :
    ofText j.compact = ⟨ofJson j, false⟩ := by
  have hscan := scans hexact hj (2 * j.compact.toList.length + 2) [] (by omega) delimited_nil
  rw [List.append_nil] at hscan
  simp [ofText, hscan, skipBlanks]

end Document

/-- What a decoder makes of the text of a value is what it makes of the value. -/
theorem Decoder.ofText_compact {α : Type} (decoder : Decoder α) {j : Json} (hexact : j.Exact)
    (hj : j.Regular) : decoder.ofText j.compact = decoder .text (.ofJson j) := by
  rw [Decoder.ofText, Document.ofText_compact hexact hj]
  cases decoder .text (.ofJson j) <;> rfl

end VersionedTopology
