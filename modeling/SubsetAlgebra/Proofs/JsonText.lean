/-
Reading back what was written.

`Reads scan text a rest` says that a scan takes the characters of `text` up to `rest` and gives `a`. Such facts are put
together along the scan (`Reads.bind`), so that for each kind of JSON text there is one lemma, whatever stands behind
the text:
- `reads_spell`, `reads_string`: a character however it is written, and a string by induction on its characters;
- `reads_numeral`: a number that fits in a word, from its digits;
- `reads_array`: items that are read back one by one, behind commas;
- `reads_record`: values that fill a draft one after another (`Fills`).

The loops of a scan run on fuel, as much as there are characters left; every round takes one, so there is always enough.
-/
import Mathlib.Tactic.Common
import SubsetAlgebra.Json.Scan
import SubsetAlgebra.Json.Tree

namespace SubsetAlgebra.Json.Scan

/-! ## Steps -/

/-- the scan takes the text up to `rest` and gives `a` -/
def Reads {α : Type} (scan : Scan α) (text : List Char) (a : α) (rest : List Char) : Prop :=
  StateT.run scan text = .ok (a, rest)

theorem Reads.pure {α : Type} (a : α) (rest : List Char) : Reads (pure a) rest a rest := rfl

theorem Reads.bind {α β : Type} {scan : Scan α} {next : α → Scan β} {text mid rest : List Char} {a : α} {b : β}
    (h : Reads scan text a mid) (h' : Reads (next a) mid b rest) : Reads (scan >>= next) text b rest := by
  unfold Reads at *
  rw [StateT.run_bind, h]
  exact h'

theorem reads_advance (c : Char) (rest : List Char) : Reads advance (c :: rest) () rest := rfl

theorem reads_next (c : Char) (rest : List Char) : Reads next (c :: rest) c rest := rfl

theorem reads_peek (c : Char) (rest : List Char) : Reads peek (c :: rest) (some c) (c :: rest) := rfl

theorem reads_peekPart {c : Char} (h : isBlank c = false) (rest : List Char) :
    Reads peekPart (c :: rest) (some c) (c :: rest) := by
  unfold Reads peekPart
  rw [StateT.run_bind]
  change StateT.run peek ((c :: rest).dropWhile isBlank) = _
  rw [List.dropWhile_cons_of_neg (by simp [h])]
  rfl

theorem reads_fuel (text : List Char) : Reads fuel text (text.length + 1) text := rfl

theorem reads_get (text : List Char) : Reads get text text text := rfl

theorem reads_set (text rest : List Char) : Reads (set rest) text () rest := rfl

theorem reads_lift {β : Type} (b : β) (rest : List Char) : Reads (lift (.ok b)) rest b rest := rfl

theorem reads_colon (rest : List Char) : Reads colon (':' :: rest) () rest :=
  (reads_peekPart (by decide) rest).bind (reads_advance _ _)

/-! ## Strings -/

/-- the four digits of a control character -/
theorem hexDigits_control {n : Nat} (h : n < 0x20) :
    ((if n < 0x10 then ['0', '0', '0'] else ['0', '0']) ++ Nat.toDigits 16 n).length = 4 ∧
      hexDigits ((if n < 0x10 then ['0', '0', '0'] else ['0', '0']) ++ Nat.toDigits 16 n) = some n := by
  revert h n
  decide

theorem length_le_bytes (cs : List Char) : cs.length ≤ cs.foldr (fun c n => c.utf8Size + n) 0 := by
  induction cs with
  | nil => exact Nat.le_refl 0
  | cons c cs ih =>
    have := c.utf8Size_pos
    rw [List.length_cons, List.foldr_cons]
    omega

theorem reads_hex4 {ds : List Char} {n : Nat} (hlen : ds.length = 4) (h : hexDigits ds = some n) (rest : List Char) :
    Reads hex4 (ds ++ rest) n rest := by
  have htake : (ds ++ rest).take 4 = ds := by rw [← hlen, List.take_left]
  have hdrop : (ds ++ rest).drop 4 = rest := by rw [← hlen, List.drop_left]
  have hfour : ¬ ds.foldr (fun c n => c.utf8Size + n) 0 < 4 := by
    have := length_le_bytes ds
    omega
  refine (reads_get _).bind ?_
  simp only [htake, hdrop, if_neg hfour]
  refine (reads_set _ _).bind ?_
  rw [h]
  exact Reads.pure _ _

/-- a control character is read back from its number -/
theorem reads_unicode {ds : List Char} {n : Nat} (hlen : ds.length = 4) (h : hexDigits ds = some n) (hn : n < 0x20)
    (rest : List Char) : Reads unicode (ds ++ rest) (Char.ofNat n) rest := by
  refine (reads_hex4 hlen h rest).bind ?_
  have htrailing : isTrailing n = false := by
    simp [isTrailing]
    omega
  have hleading : isLeading n = false := by
    simp [isLeading]
    omega
  simp only [htrailing, hleading]
  exact Reads.pure _ _

theorem reads_plain {c : Char} (hquote : c ≠ '"') (hslash : c ≠ '\\') (hcontrol : ¬ c.toNat < 0x20) (rest : List Char) :
    Reads (stringPart unicode) (c :: rest) (some c) rest := by
  refine (reads_next c rest).bind ?_
  rw [if_neg hquote, if_neg hcontrol, if_pos hslash]
  exact Reads.pure _ _

theorem reads_spell (c : Char) (rest : List Char) :
    Reads (stringPart unicode) ((Tree.spell c).toList ++ rest) (some c) rest := by
  unfold Tree.spell
  split
  case h_8 hquote hslash _ _ _ _ _ =>
    split
    · next h =>
      have hspelled : ("\\u00" ++ (if c.toNat < 0x10 then "0" else "") ++ Text.hex c.toNat).toList =
          '\\' :: 'u' :: ((if c.toNat < 0x10 then ['0', '0', '0'] else ['0', '0']) ++ Nat.toDigits 16 c.toNat) := by
        split <;> simp [Text.hex]
      obtain ⟨hlen, hvalue⟩ := hexDigits_control h
      have hread := reads_unicode hlen hvalue h rest
      rw [Char.ofNat_toNat] at hread
      rw [hspelled]
      exact (reads_next _ _).bind ((reads_next _ _).bind (hread.bind (Reads.pure _ _)))
    · next h =>
      rw [Char.toString_eq_singleton, String.toList_singleton]
      exact reads_plain hquote hslash h rest
  -- the others have a text of their own, which is read as it stands
  all_goals rfl

theorem length_spell_pos (c : Char) : 0 < (Tree.spell c).toList.length := by
  unfold Tree.spell
  split
  case h_8 => split <;> simp [Text.hex]
  all_goals decide

/-- characters as they are written in a string -/
def spelled (cs : List Char) : List Char := cs.flatMap fun c => (Tree.spell c).toList

theorem spelled_cons (c : Char) (cs : List Char) : spelled (c :: cs) = (Tree.spell c).toList ++ spelled cs :=
  List.flatMap_cons

theorem length_le_spelled (cs : List Char) : cs.length ≤ (spelled cs).length := by
  induction cs with
  | nil => exact Nat.le_refl 0
  | cons c cs ih =>
    have := length_spell_pos c
    rw [spelled_cons, List.length_append, List.length_cons]
    omega

/-- characters up to the closing mark -/
theorem reads_stringRest (cs done rest : List Char) {n : Nat} (hn : cs.length < n) :
    Reads (stringRest unicode done n) (spelled cs ++ '"' :: rest) (String.ofList (done.reverse ++ cs)) rest := by
  induction cs generalizing done n with
  | nil =>
    obtain ⟨n, rfl⟩ := Nat.exists_eq_succ_of_ne_zero (Nat.ne_of_gt hn)
    have hend : Reads (stringPart unicode) ('"' :: rest) none rest := rfl
    rw [List.append_nil]
    exact hend.bind (Reads.pure _ _)
  | cons c cs ih =>
    obtain ⟨n, rfl⟩ := Nat.exists_eq_succ_of_ne_zero (Nat.ne_of_gt (Nat.zero_lt_of_lt hn))
    have hnext := ih (c :: done) (Nat.lt_of_succ_lt_succ hn)
    rw [List.reverse_cons, List.append_assoc] at hnext
    rw [spelled_cons, List.append_assoc]
    exact (reads_spell c _).bind hnext

/-- a string that was written is read back -/
theorem reads_string (s : String) (rest : List Char) : Reads string (spelled s.toList ++ '"' :: rest) s rest := by
  have hfuel : s.toList.length < (spelled s.toList ++ '"' :: rest).length + 1 := by
    have := length_le_spelled s.toList
    rw [List.length_append]
    omega
  have hread := reads_stringRest s.toList [] rest hfuel
  rw [List.reverse_nil, List.nil_append, String.ofList_toList] at hread
  exact (reads_fuel _).bind hread

/-! ## Numbers -/

/-- what follows does not go on with a number -/
def Ends (rest : List Char) : Prop :=
  ∃ c cs, rest = c :: cs ∧ c.isDigit = false ∧ c ≠ '.' ∧ c ≠ 'e' ∧ c ≠ 'E'

theorem le_ofDigitChars (ds : List Char) (n : Nat) : n ≤ Nat.ofDigitChars 10 ds n := by
  rw [Nat.ofDigitChars_eq_ofDigitChars_zero]
  calc n ≤ 10 ^ ds.length * n := Nat.le_mul_of_pos_left n (Nat.pow_pos (by decide))
    _ ≤ 10 ^ ds.length * n + Nat.ofDigitChars 10 ds 0 := Nat.le_add_right _ _

/-- a step that takes every digit as long as there is room takes them all -/
theorem foldl_digits {step : Nat × Nat × Nat → Char → Nat × Nat × Nat}
    (hstep : ∀ n read d, 10 * n + (d.toNat - '0'.toNat) < wordLimit →
      step (n, read, 0) d = (10 * n + (d.toNat - '0'.toNat), read + 1, 0))
    (ds : List Char) (n read : Nat) (h : Nat.ofDigitChars 10 ds n < wordLimit) :
    ds.foldl step (n, read, 0) = (Nat.ofDigitChars 10 ds n, read + ds.length, 0) := by
  induction ds generalizing n read with
  | nil => rfl
  | cons d ds ih =>
    rw [Nat.ofDigitChars_cons] at h ⊢
    rw [List.foldl_cons, hstep n read d (Nat.lt_of_le_of_lt (le_ofDigitChars ds _) h), ih _ _ h, List.length_cons]
    congr 2
    omega

/-- digits of a number that fits in a word are all read into it -/
theorem readDigits_eq {ds : List Char} {n : Nat} (h : Nat.ofDigitChars 10 ds n < wordLimit) :
    readDigits n ds = (Nat.ofDigitChars 10 ds n, ds.length, 0) := by
  refine (foldl_digits (fun n read d hfit => ?_) ds n 0 h).trans ?_
  · exact if_pos ⟨rfl, hfit⟩
  · rw [Nat.zero_add]

theorem isDigit_of_mem_digits {n : Nat} : ∀ d ∈ Nat.toDigits 10 n, d.isDigit = true := fun _ =>
  Nat.isDigit_of_mem_toDigits (by decide) (by decide)

theorem digits_start (n : Nat) : ∃ d ds, Nat.toDigits 10 n = d :: ds ∧ d.isDigit = true := by
  cases h : Nat.toDigits 10 n with
  | nil => exact absurd h Nat.toDigits_ne_nil
  | cons d ds => exact ⟨d, ds, rfl, isDigit_of_mem_digits d (by rw [h]; exact List.mem_cons_self)⟩

theorem not_blank_of_isDigit {d : Char} (h : d.isDigit = true) : isBlank d = false := by
  by_contra hblank
  simp only [isBlank, Bool.not_eq_false, Bool.or_eq_true, beq_iff_eq] at hblank
  rcases hblank with ((rfl | rfl) | rfl) | rfl <;> cases h

theorem digitChar_ne_zero {n : Nat} (h : n < 10) (hpos : 0 < n) : Nat.digitChar n ≠ '0' := by
  revert n
  decide

/-- the digits of a number begin with none that could be left out -/
theorem head_toDigits {n : Nat} (h : 0 < n) : (Nat.toDigits 10 n).head? ≠ some '0' := by
  induction n using Nat.strongRecOn with
  | ind n ih =>
    rcases Nat.lt_or_ge n 10 with hn | hn
    · rw [Nat.toDigits_of_lt_base hn, List.head?_cons]
      exact fun heq => digitChar_ne_zero hn h (Option.some.inj heq)
    · have hhead := ih (n / 10) (by omega) (by omega)
      obtain ⟨d, ds, hds, -⟩ := digits_start (n / 10)
      rw [Nat.toDigits_of_base_le (by decide) hn, hds]
      rwa [hds] at hhead

theorem reads_takeDigits {ds rest : List Char} (hds : ∀ d ∈ ds, d.isDigit = true) (h : Ends rest) :
    Reads takeDigits (ds ++ rest) ds rest := by
  obtain ⟨c, cs, rfl, hc, -⟩ := h
  have htake : (ds ++ c :: cs).takeWhile Char.isDigit = ds := by
    rw [List.takeWhile_append_of_pos hds, List.takeWhile_cons_of_neg (by simp [hc]), List.append_nil]
  have hdrop : (ds ++ c :: cs).dropWhile Char.isDigit = c :: cs := by
    rw [List.dropWhile_append_of_pos hds, List.dropWhile_cons_of_neg (by simp [hc])]
  change Except.ok ((ds ++ c :: cs).takeWhile Char.isDigit, (ds ++ c :: cs).dropWhile Char.isDigit) = _
  rw [htake, hdrop]

/-- a number that fits in a word is read back from its digits -/
theorem reads_numeral (positive : Bool) {n : Nat} (hn : n < wordLimit) {rest : List Char} (h : Ends rest) :
    Reads (numeral positive) (Nat.toDigits 10 n ++ rest) (whole positive n) rest := by
  have hvalue : readDigits 0 (Nat.toDigits 10 n) = (n, (Nat.toDigits 10 n).length, 0) := by
    rw [readDigits_eq] <;> rw [Nat.ofDigitChars_ten_toDigits]
    exact hn
  have hlead : ¬ ((Nat.toDigits 10 n).head? = some '0' ∧ 1 < (Nat.toDigits 10 n).length) := by
    rintro ⟨hzero, hlen⟩
    rcases Nat.eq_zero_or_pos n with rfl | hpos
    · exact absurd hlen (by decide)
    · exact head_toDigits hpos hzero
  have hdigits := reads_takeDigits (isDigit_of_mem_digits (n := n)) h
  obtain ⟨d, ds, hds, hd⟩ := digits_start n
  rw [hds] at hdigits hvalue hlead ⊢
  refine (reads_get _).bind ?_
  simp only [List.cons_append, hd]
  refine hdigits.bind ?_
  rw [if_neg hlead]
  simp only [hvalue]
  obtain ⟨c, cs, rfl, -, hpoint, he, hE⟩ := h
  refine (reads_peek c cs).bind ?_
  rw [if_neg (by simpa using hpoint)]
  refine (reads_peek c cs).bind ?_
  split
  · simp_all
  · simp_all
  · exact Reads.pure _ _

/-! ## Texts of arrays and objects -/

/-- what stands before a text, the first or another one -/
def comma (fresh : Bool) : List Char := if fresh then [] else [',']

/-- texts with commas between them, and one before them unless they are the first -/
def separated (fresh : Bool) : List (List Char) → List Char
  | [] => []
  | t :: ts => comma fresh ++ t ++ separated false ts

theorem intercalate_eq (ts : List (List Char)) : [','].intercalate ts = separated true ts := by
  have key : ∀ (t : List Char) (ts : List (List Char)), [','].intercalate (t :: ts) = t ++ separated false ts := by
    intro t ts
    induction ts generalizing t with
    | nil => simp [List.intercalate, separated]
    | cons u us ih =>
      have := ih u
      simp only [List.intercalate, List.intersperse_cons_cons, List.flatten_cons] at this ⊢
      rw [this]
      rfl
  cases ts with
  | nil => rfl
  | cons t ts => exact key t ts

theorem length_le_separated {ts : List (List Char)} (h : ∀ t ∈ ts, t ≠ []) (fresh : Bool) :
    ts.length ≤ (separated fresh ts).length := by
  induction ts generalizing fresh with
  | nil => exact Nat.zero_le _
  | cons t ts ih =>
    have hrest := ih (fun u hu => h u (List.mem_cons_of_mem _ hu)) false
    have hfirst := List.length_pos_iff.2 (h t List.mem_cons_self)
    rw [separated, List.length_append, List.length_append, List.length_cons]
    omega

/-- there is fuel for every text -/
theorem length_lt_fuel {ts : List (List Char)} (h : ∀ t ∈ ts, t ≠ []) (rest : List Char) :
    ts.length < (separated true ts ++ rest).length + 1 := by
  rw [List.length_append]
  exact Nat.lt_succ_of_le (Nat.le_trans (length_le_separated h true) (Nat.le_add_right _ _))

/-- a key and its value as they are written -/
def entry (m : String × Tree) : List Char := (Tree.quote m.1).toList ++ ':' :: m.2.compact.toList

theorem toList_quote (s : String) : (Tree.quote s).toList = '"' :: (spelled s.toList ++ ['"']) := by
  simp [Tree.quote, spelled, String.toList_join, List.flatMap_map]

theorem compactAll_eq (ts : List Tree) : Tree.compactAll ts = ts.map Tree.compact := by
  induction ts with
  | nil => rfl
  | cons t ts ih => rw [Tree.compactAll, ih, List.map_cons]

theorem toList_compactMembers (ms : List (String × Tree)) :
    (Tree.compactMembers ms).map String.toList = ms.map entry := by
  induction ms with
  | nil => rfl
  | cons m ms ih =>
    obtain ⟨key, t⟩ := m
    simp [Tree.compactMembers, entry, ih]

theorem toList_array (ts : List Tree) :
    (Tree.array ts).compact.toList = '[' :: (separated true (ts.map fun t => t.compact.toList) ++ [']']) := by
  rw [Tree.compact, compactAll_eq, ← intercalate_eq]
  simp [String.toList_intercalate, Function.comp_def]

theorem toList_object (ms : List (String × Tree)) :
    (Tree.object ms).compact.toList = '\x7b' :: (separated true (ms.map entry) ++ ['\x7d']) := by
  rw [Tree.compact, ← intercalate_eq]
  simp [String.toList_intercalate, toList_compactMembers]

theorem toList_natural (n : Nat) : (Tree.number n).compact.toList = Nat.toDigits 10 n := by
  change (toString n).toList = _
  rw [Nat.toString_eq_ofList_toDigits, String.toList_ofList]

theorem toList_negative (n : Nat) : (Tree.number (Int.negSucc n)).compact.toList = '-' :: Nat.toDigits 10 (n + 1) := by
  change ("-" ++ toString (n + 1)).toList = _
  rw [Nat.toString_eq_ofList_toDigits]
  simp

/-- no value is written with a blank or a closing bracket in front -/
theorem compact_starts (t : Tree) : ∃ c cs, t.compact.toList = c :: cs ∧ isBlank c = false ∧ c ≠ ']' := by
  cases t with
  | number n =>
    cases n with
    | ofNat n =>
      obtain ⟨d, ds, hds, hd⟩ := digits_start n
      refine ⟨d, ds, (toList_natural n).trans hds, not_blank_of_isDigit hd, ?_⟩
      rintro rfl
      cases hd
    | negSucc n => exact ⟨'-', _, toList_negative n, by decide⟩
  | boolean b => cases b <;> exact ⟨_, _, rfl, by decide⟩
  | text s => exact ⟨'"', _, toList_quote s, by decide⟩
  | array ts => exact ⟨'[', _, toList_array ts, by decide⟩
  | object ms => exact ⟨'\x7b', _, toList_object ms, by decide⟩

/-- what may follow an item of an array or a value of an object -/
def Closing (rest : List Char) : Prop := ∃ c cs, rest = c :: cs ∧ (c = ',' ∨ c = ']' ∨ c = '\x7d')

theorem Closing.ends {rest : List Char} (h : Closing rest) : Ends rest := by
  obtain ⟨c, cs, rfl, rfl | rfl | rfl⟩ := h <;> exact ⟨_, cs, rfl, by decide⟩

theorem closing_separated (ts : List (List Char)) {last : Char} (h : last = ']' ∨ last = '\x7d') (rest : List Char) :
    Closing (separated false ts ++ last :: rest) := by
  cases ts with
  | nil => exact ⟨last, rest, rfl, .inr h⟩
  | cons t ts => exact ⟨',', _, rfl, .inl rfl⟩

/-! ## Arrays -/

theorem reads_hasItem_end (fresh : Bool) (rest : List Char) : Reads (hasItem fresh) (']' :: rest) false (']' :: rest) :=
  (reads_peekPart (by decide) rest).bind (Reads.pure _ _)

theorem reads_hasItem {c : Char} (hblank : isBlank c = false) (hend : c ≠ ']') (fresh : Bool) (rest : List Char) :
    Reads (hasItem fresh) (comma fresh ++ c :: rest) true (c :: rest) := by
  cases fresh with
  | true =>
    refine (reads_peekPart hblank rest).bind ?_
    split
    · cases ‹_›
    · simp_all
    · exact Reads.pure _ _
  | false =>
    refine (reads_peekPart (by decide) _).bind ?_
    refine (reads_advance _ _).bind ?_
    refine (reads_peekPart hblank rest).bind ?_
    split
    · cases ‹_›
    · simp_all
    · exact Reads.pure _ _

/-- `item` takes the text of `t` for `a`, whatever closes the item -/
def Item {β : Type} (item : Scan β) (t : Tree) (a : β) : Prop :=
  ∀ rest, Closing rest → Reads item (t.compact.toList ++ rest) a rest

section Arrays

variable {β : Type} {item : Scan β} {tree : β → Tree} {es : List β}

theorem reads_items (h : ∀ e ∈ es, Item item (tree e) e) (done : List β) (rest : List Char) {n : Nat}
    (hn : es.length < n) :
    Reads (items item done n) (separated done.isEmpty (es.map fun e => (tree e).compact.toList) ++ ']' :: rest)
      (done.reverse ++ es) rest := by
  induction es generalizing done n with
  | nil =>
    obtain ⟨n, rfl⟩ := Nat.exists_eq_succ_of_ne_zero (Nat.ne_of_gt hn)
    rw [List.append_nil]
    refine (reads_hasItem_end _ _).bind ?_
    exact (reads_advance _ _).bind (Reads.pure _ _)
  | cons e es ih =>
    obtain ⟨n, rfl⟩ := Nat.exists_eq_succ_of_ne_zero (Nat.ne_of_gt (Nat.zero_lt_of_lt hn))
    have hitem := h e List.mem_cons_self _ (closing_separated (es.map fun e => (tree e).compact.toList) (.inl rfl) rest)
    have hnext := ih (fun e' he' => h e' (List.mem_cons_of_mem _ he')) (e :: done) (n := n) (by simpa using hn)
    rw [List.reverse_cons, List.append_assoc] at hnext
    obtain ⟨c, cs, hstart, hblank, hend⟩ := compact_starts (tree e)
    rw [List.map_cons, separated, List.append_assoc, List.append_assoc]
    rw [hstart] at hitem ⊢
    refine (reads_hasItem hblank hend _ _).bind ?_
    exact hitem.bind hnext

/-- an array that was written is read back -/
theorem reads_array (h : ∀ e ∈ es, Item item (tree e) e) (rest : List Char) :
    Reads (array item) ((Tree.array (es.map tree)).compact.toList ++ rest) es rest := by
  have hnonempty : ∀ t ∈ es.map (fun e => (tree e).compact.toList), t ≠ [] := by
    intro t ht
    obtain ⟨e, -, rfl⟩ := List.mem_map.1 ht
    obtain ⟨c, cs, hstart, -⟩ := compact_starts (tree e)
    rw [hstart]
    exact List.cons_ne_nil c cs
  have hfuel := length_lt_fuel hnonempty (']' :: rest)
  rw [List.length_map] at hfuel
  rw [toList_array, List.map_map, List.cons_append, List.append_assoc]
  refine (reads_peekPart (by decide) _).bind ?_
  refine (reads_advance _ _).bind ?_
  exact (reads_fuel _).bind (reads_items h [] rest hfuel)

end Arrays

/-! ## Records -/

theorem reads_key_end (fresh : Bool) (rest : List Char) : Reads (key? fresh) ('\x7d' :: rest) none rest :=
  (reads_peekPart (by decide) _).bind ((reads_advance _ _).bind (Reads.pure _ _))

theorem reads_key (fresh : Bool) (key : String) (rest : List Char) :
    Reads (key? fresh) (comma fresh ++ ((Tree.quote key).toList ++ rest)) (some key) rest := by
  have hname : Reads (do advance; return some (← string) : Scan (Option String))
      ('"' :: (spelled key.toList ++ '"' :: rest)) (some key) rest :=
    (reads_advance _ _).bind ((reads_string key rest).bind (Reads.pure _ _))
  rw [toList_quote, List.cons_append, List.append_assoc, List.cons_append, List.nil_append]
  cases fresh with
  | true =>
    refine (reads_peekPart (by decide) _).bind ?_
    exact (reads_peekPart (by decide) _).bind hname
  | false =>
    refine (reads_peekPart (by decide) _).bind ?_
    refine (reads_advance _ _).bind ?_
    exact (reads_peekPart (by decide) _).bind hname

section Records

variable {σ β : Type} {field : σ → String → Scan σ} {d d' : σ} {ms : List (String × Tree)}

/-- the values of these keys, one after another, take the draft `d` to the draft `d'` -/
inductive Fills (field : σ → String → Scan σ) : σ → List (String × Tree) → σ → Prop where
  | nil (d : σ) : Fills field d [] d
  | cons {d d'' : σ} {key : String} {t : Tree} {ms : List (String × Tree)} (d' : σ) :
    (∀ rest, Closing rest → Reads (field d key) (':' :: (t.compact.toList ++ rest)) d' rest) → Fills field d' ms d'' →
    Fills field d ((key, t) :: ms) d''

theorem reads_fields (h : Fills field d ms d') (fresh : Bool) (rest : List Char) {n : Nat} (hn : ms.length < n) :
    Reads (fields field d fresh n) (separated fresh (ms.map entry) ++ '\x7d' :: rest) d' rest := by
  induction h generalizing fresh n with
  | nil d =>
    obtain ⟨n, rfl⟩ := Nat.exists_eq_succ_of_ne_zero (Nat.ne_of_gt hn)
    exact (reads_key_end _ _).bind (Reads.pure _ _)
  | @cons d d'' key t ms d' hfield hms ih =>
    obtain ⟨n, rfl⟩ := Nat.exists_eq_succ_of_ne_zero (Nat.ne_of_gt (Nat.zero_lt_of_lt hn))
    have hvalue := hfield _ (closing_separated (ms.map entry) (.inr rfl) rest)
    have hnext := ih false (n := n) (by simpa using hn)
    rw [List.map_cons, separated, entry, List.append_assoc, List.append_assoc, List.append_assoc, List.cons_append]
    refine (reads_key fresh key _).bind ?_
    exact hvalue.bind hnext

/-- what an object holds is read back from its text, if the draft that it fills is complete -/
theorem reads_record {name : String} {item : σ → Bool → Scan σ} {finish : σ → Except Refusal β} {b : β}
    (h : Fills field d ms d') (hfinish : finish d' = .ok b) (rest : List Char) :
    Reads (record name d field item finish) ((Tree.object ms).compact.toList ++ rest) b rest := by
  have hnonempty : ∀ t ∈ ms.map entry, t ≠ [] := by
    intro t ht
    obtain ⟨m, -, rfl⟩ := List.mem_map.1 ht
    rw [entry, toList_quote]
    exact List.cons_ne_nil _ _
  have hfuel := length_lt_fuel hnonempty ('\x7d' :: rest)
  rw [List.length_map] at hfuel
  have hdone : Reads (lift (finish d')) rest b rest := by
    rw [hfinish]
    exact reads_lift b rest
  rw [toList_object, List.cons_append, List.append_assoc]
  refine (reads_peekPart (by decide) _).bind ?_
  refine (reads_advance _ _).bind ?_
  refine (reads_fuel _).bind ?_
  exact (reads_fields h true rest hfuel).bind hdone

end Records

/-! ## Whole texts -/

/-- a text that a scan takes to its end is read, and refused only by a rule that comes after it -/
theorem run_lift {β γ : Type} {scan : Scan β} {text : String} {b : β} (h : Reads scan text.toList b [])
    (f : β → Except Refusal γ) : run (do lift (f (← scan))) text = (f b).mapError .refused := by
  cases hf : f b with
  | ok c =>
    have hread : Reads (do lift (f (← scan))) text.toList c [] := h.bind (by rw [hf]; exact reads_lift c [])
    unfold run
    rw [hread]
    rfl
  | error why =>
    have hstop : StateT.run (do lift (f (← scan))) text.toList = .error (.refused why) := by
      rw [StateT.run_bind, h]
      change StateT.run (lift (f b)) [] = _
      rw [hf]
      rfl
    unfold run
    rw [hstop]
    rfl

end SubsetAlgebra.Json.Scan
