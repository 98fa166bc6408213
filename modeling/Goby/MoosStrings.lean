import Goby.NmeaSentences
import Goby.Occurrences

/-! `val_from_string` looks a key up in a string such as `foo=1,bar={2,3,4,5},pig=3`. It searches for
the key and an equal sign, without regard to case, and takes the first occurrence that is at the
front of the string or behind a comma. -/

namespace Goby.Moos

def equalSign : UInt8 := 0x3D
def openBrace : UInt8 := 0x7B
def closeBrace : UInt8 := 0x7D

def keyHit (key s : Bytes) : Bool := ((key ++ [equalSign]).map toLower).isPrefixOf (s.map toLower)

/-- `boost::ifind_nth` of the key and an equal sign. -/
def ifindNth (str key : Bytes) (n : ℕ) : Option ℕ :=
  Occurrences.findNth (keyHit key) (key.length + 1) str n

/-- Rounds of the loop; outside, `none` if they do not suffice, and inside, if no occurrence is
left. -/
def startLoop (str key : Bytes) : ℕ → ℕ → Option (Option ℕ)
  | 0, _ => none
  | rounds + 1, n =>
    match ifindNth str key n with
    | none => some none
    | some startPos =>
      if startPos = 0 ∨ str[startPos - 1]? = some comma then some (some startPos)
      else startLoop str key rounds (n + 1)

/-- `substr` up to a position, or to the end of the string. -/
def substrTo (s : Bytes) (pos : ℕ) : Option ℕ → Bytes
  | none => s.drop pos
  | some endPos => (s.drop pos).take (endPos - pos)

/-- What is returned, and the value of `out`, once the string has been cut off before the key. -/
def valueAt (chopped : Bytes) : Bool × Bytes :=
  match chopped.findIdx? (fun c => c = equalSign) with
  | none => (false, [])
  | some equalPos =>
    let choppedTwice := chopped.drop equalPos
    if chopped[equalPos + 1]? = some openBrace then
      (true, substrTo choppedTwice 2 (choppedTwice.findIdx? fun c => c = closeBrace))
    else (true, substrTo choppedTwice 1 (choppedTwice.findIdx? fun c => c = comma))

def valFromString (rounds : ℕ) (str key : Bytes) : Option (Bool × Bytes) :=
  (startLoop str key rounds 0).map fun startPos =>
    match startPos with
    | none => (false, [])
    | some startPos => valueAt (str.drop startPos)

inductive PairValue where
  | plain (text : Bytes) (comma_notMem : comma ∉ text) (head_ne : text.head? ≠ some openBrace)
  | list (items : List Bytes) (notMem : ∀ item ∈ items, equalSign ∉ item ∧ closeBrace ∉ item)

def PairValue.contents : PairValue → Bytes
  | .plain text _ _ => text
  | .list items _ => [comma].intercalate items

def PairValue.render : PairValue → Bytes
  | .plain text _ _ => text
  | .list items _ => openBrace :: [comma].intercalate items ++ [closeBrace]

structure Pair where
  key : Bytes
  value : PairValue
  key_ne : key ≠ []
  comma_notMem : comma ∉ key
  equalSign_notMem : equalSign ∉ key

def Pair.render (p : Pair) : Bytes := p.key ++ equalSign :: p.value.render

def renderPairs (pairs : List Pair) : Bytes := [comma].intercalate (pairs.map Pair.render)

def following : List Pair → Bytes
  | [] => []
  | pairs => comma :: renderPairs pairs

theorem renderPairs_cons (p : Pair) (pairs : List Pair) :
    renderPairs (p :: pairs) = p.render ++ following pairs := by
  cases pairs <;> simp [renderPairs, following]

variable {b : UInt8} {u : Bytes}

theorem toLower_eq_iff (hb : b = comma ∨ b = equalSign) (c : UInt8) : toLower c = b ↔ c = b := by
  rcases hb with rfl | rfl <;> exact forall_byte (by decide +kernel) c

theorem length_eq_of_iequals {s s' : Bytes} (h : iequals s s' = true) : s.length = s'.length := by
  have hmap : s.map toLower = s'.map toLower := by simpa [iequals] using h
  simpa using congrArg List.length hmap

theorem notMem_of_iequals {s s' : Bytes} (hb : b = comma ∨ b = equalSign)
    (h : iequals s s' = true) (hs' : b ∉ s') : b ∉ s := by
  intro hs
  have hmap : s.map toLower = s'.map toLower := by simpa [iequals] using h
  have hmem : b ∈ s'.map toLower := by
    rw [← hmap]
    exact List.mem_map.mpr ⟨b, hs, (toLower_eq_iff hb b).mpr rfl⟩
  obtain ⟨c, hc, hcb⟩ := List.mem_map.mp hmem
  exact hs' ((toLower_eq_iff hb c).mp hcb ▸ hc)

variable {key : Bytes}

theorem keyHit_iff {s : Bytes} :
    keyHit key s = true ↔ ∃ k rest, s = k ++ equalSign :: rest ∧ iequals k key = true := by
  have hequal : toLower equalSign = equalSign := by decide
  simp only [keyHit, List.isPrefixOf_iff_prefix, List.map_append, List.map_cons, List.map_nil, hequal,
    iequals, decide_eq_true_eq]
  constructor
  · rintro ⟨t, ht⟩
    rw [List.append_assoc] at ht
    obtain ⟨k, rest', rfl, hk, hrest⟩ := List.map_eq_append_iff.mp ht.symm
    obtain ⟨c, rest, rfl, hc, -⟩ := List.map_eq_cons_iff.mp hrest
    rw [(toLower_eq_iff (.inr rfl) c).mp hc]
    exact ⟨k, rest, rfl, hk⟩
  · rintro ⟨k, rest, rfl, hk⟩
    simp [hk, hequal]

theorem append_equalSign_inj {k k' rest rest' : Bytes} (hk : equalSign ∉ k) (hk' : equalSign ∉ k')
    (h : k ++ equalSign :: rest = k' ++ equalSign :: rest') : k = k' := by
  induction k generalizing k' with
  | nil =>
    cases k' with
    | nil => rfl
    | cons c k' => simp_all
  | cons c k ih =>
    cases k' with
    | nil => simp_all
    | cons c' k' =>
      simp only [List.cons_append, List.cons.injEq, List.mem_cons, not_or] at h hk hk' ⊢
      exact ⟨h.1, ih hk.2 hk'.2 h.2⟩

section

variable (hequal : equalSign ∉ key)
include hequal

theorem keyHit_append {k : Bytes} (hk : equalSign ∉ k) (rest : Bytes) :
    keyHit key (k ++ equalSign :: rest) = iequals k key := by
  rw [Bool.eq_iff_iff, keyHit_iff]
  constructor
  · rintro ⟨k', rest', heq, hk'⟩
    rwa [append_equalSign_inj hk (notMem_of_iequals (.inr rfl) hk' hequal) heq]
  · exact fun h => ⟨k, rest, rfl, h⟩

theorem separated_keyHit : Occurrences.Separated (keyHit key) (key.length + 1) := by
  refine ⟨Nat.succ_pos _, fun s hs j hpos hj => ?_⟩
  obtain ⟨k, rest, rfl, hk⟩ := keyHit_iff.mp hs
  have hlength := length_eq_of_iequals hk
  have hnotMem : equalSign ∉ k.drop j := fun h =>
    notMem_of_iequals (.inr rfl) hk hequal (List.mem_of_mem_drop h)
  rw [List.drop_append_of_le_length (by omega), keyHit_append hequal hnotMem]
  refine Bool.eq_false_iff.mpr fun h => ?_
  have hshort := length_eq_of_iequals h
  rw [List.length_drop] at hshort
  omega

/-- With enough rounds, the loop finds the first occurrence that is at the front or behind a
comma. -/
theorem startLoop_eq (str : Bytes) {rounds n : ℕ}
    (hn : n ≤ (Occurrences.positions (keyHit key) str).length)
    (hrounds : (Occurrences.positions (keyHit key) str).length < n + rounds) :
    startLoop str key rounds n = some (((Occurrences.positions (keyHit key) str).drop n).find? fun i =>
      if i = 0 then true else (str[i - 1]?).any fun c => c = comma) := by
  induction rounds generalizing n with
  | zero => omega
  | succ rounds ih =>
    rw [startLoop, ifindNth, Occurrences.findNth_eq (separated_keyHit hequal)]
    cases hget : (Occurrences.positions (keyHit key) str)[n]? with
    | none => simp [List.drop_eq_nil_of_le (List.getElem?_eq_none_iff.mp hget)]
    | some i =>
      obtain ⟨hlt, rfl⟩ := List.getElem?_eq_some_iff.mp hget
      rw [List.drop_eq_getElem_cons hlt, List.find?_cons, ih (by omega) (by omega)]
      generalize (Occurrences.positions (keyHit key) str)[n] = i
      by_cases hi : i = 0
      · simp [hi]
      · cases hprev : str[i - 1]? with
        | none => simp [hi, hprev]
        | some c => by_cases hc : c = comma <;> simp [hi, hprev, hc]

end

theorem length_positions_le (s : Bytes) : (Occurrences.positions (keyHit key) s).length ≤ s.length := by
  induction s with
  | nil => rfl
  | cons c s ih => by_cases h : keyHit key (c :: s) = true <;> simp [Occurrences.positions, h] <;> omega

section

variable (hcomma : comma ∉ key)
include hcomma

/-- A comma before the first equal sign: the key cannot begin here. -/
theorem keyHit_append_comma {w : Bytes} (hw : equalSign ∉ w) (rest : Bytes) :
    keyHit key (w ++ comma :: rest) = false := by
  refine Bool.eq_false_iff.mpr fun h => ?_
  obtain ⟨k, rest', heq, hk⟩ := keyHit_iff.mp h
  have hk' : comma ∉ k := notMem_of_iequals (.inl rfl) hk hcomma
  rcases List.append_eq_append_iff.mp heq with ⟨t, rfl, ht⟩ | ⟨t, rfl, ht⟩
  · cases t with
    | nil => exact absurd (List.cons.inj ht).1 (by decide)
    | cons c t =>
      obtain ⟨rfl, -⟩ := List.cons.inj ht
      simp at hk'
  · cases t with
    | nil => exact absurd (List.cons.inj ht).1 (by decide)
    | cons c t =>
      obtain ⟨rfl, -⟩ := List.cons.inj ht
      simp at hw

theorem keyHit_following {w : Bytes} (hw : equalSign ∉ w) (pairs : List Pair) :
    keyHit key (w ++ following pairs) = false := by
  cases pairs with
  | nil =>
    refine Bool.eq_false_iff.mpr fun h => ?_
    obtain ⟨k, rest, heq, -⟩ := keyHit_iff.mp h
    rw [following, List.append_nil] at heq
    simp [heq] at hw
  | cons p pairs => exact keyHit_append_comma hcomma hw _

end

def lookup (key : Bytes) (pairs : List Pair) : Option Pair := pairs.find? fun p => iequals p.key key

abbrev searchFrom (key : Bytes) : Bool → Bytes → Option Bytes :=
  Occurrences.firstAfter (keyHit key) fun c => c = comma

theorem searchFrom_append (hu : comma ∉ u) (rest : Bytes) :
    searchFrom key false (u ++ rest) = searchFrom key false rest := by
  induction u with
  | nil => rfl
  | cons c u ih =>
    simp only [List.mem_cons, not_or] at hu
    simp [searchFrom, Occurrences.firstAfter, Ne.symm hu.1]
    exact ih hu.2

theorem searchFrom_following (pairs : List Pair) :
    searchFrom key false (following pairs) = searchFrom key true (renderPairs pairs) := by
  cases pairs with
  | nil => rfl
  | cons p pairs => simp [searchFrom, following, Occurrences.firstAfter]

/-- Behind the commas of a list no key is found: there is no equal sign before the next pair. -/
theorem searchFrom_list (hcomma : comma ∉ key) (hu : equalSign ∉ u) (flag : Bool)
    (pairs : List Pair) :
    searchFrom key flag (u ++ closeBrace :: following pairs) = searchFrom key false (following pairs) := by
  induction u generalizing flag with
  | nil =>
    have hmiss : keyHit key (closeBrace :: following pairs) = false :=
      keyHit_following hcomma (show equalSign ∉ [closeBrace] by decide) pairs
    simp [searchFrom, Occurrences.firstAfter, hmiss, show closeBrace ≠ comma by decide]
  | cons c u ih =>
    have hmiss : keyHit key (c :: (u ++ closeBrace :: following pairs)) = false := by
      have hclosed : equalSign ∉ c :: u ++ [closeBrace] := by
        simpa [show equalSign ≠ closeBrace by decide] using hu
      simpa using keyHit_following hcomma hclosed pairs
    rw [List.mem_cons, not_or] at hu
    rw [List.cons_append, searchFrom, Occurrences.firstAfter, if_neg (by simp [hmiss])]
    exact ih hu.2 _

theorem notMem_intercalate (hb : b ≠ comma) {items : List Bytes}
    (h : ∀ item ∈ items, b ∉ item) : b ∉ [comma].intercalate items := by
  induction items with
  | nil => simp
  | cons item items ih =>
    have hitem := h item (List.mem_cons_self ..)
    have hrest := ih fun item' hitem' => h item' (List.mem_cons_of_mem _ hitem')
    cases items with
    | nil => simpa using hitem
    | cons next items => simpa [hitem, hb] using hrest

theorem searchFrom_value (hcomma : comma ∉ key) (value : PairValue) (pairs : List Pair) :
    searchFrom key false (value.render ++ following pairs) = searchFrom key true (renderPairs pairs) := by
  rw [← searchFrom_following]
  cases value with
  | plain text htext _ => exact searchFrom_append htext _
  | list items hitems =>
    have hlist : equalSign ∉ openBrace :: [comma].intercalate items := by
      simpa [show equalSign ≠ openBrace by decide] using
        notMem_intercalate (show equalSign ≠ comma by decide) fun item hitem => (hitems item hitem).1
    have hsearch := searchFrom_list hcomma hlist false pairs
    simpa [PairValue.render] using hsearch

/-- The search stops at the first pair if it has the key, and goes on with the others if not. -/
theorem searchFrom_cons (hcomma : comma ∉ key) (hequal : equalSign ∉ key) (p : Pair)
    (pairs : List Pair) :
    searchFrom key true (renderPairs (p :: pairs)) =
      if iequals p.key key then some (renderPairs (p :: pairs)) else searchFrom key true (renderPairs pairs) := by
  have hhit : keyHit key (renderPairs (p :: pairs)) = iequals p.key key := by
    rw [renderPairs_cons, Pair.render, List.append_assoc]
    exact keyHit_append hequal p.equalSign_notMem _
  obtain ⟨c, k, hk⟩ := List.exists_cons_of_ne_nil p.key_ne
  have hc : comma ∉ c :: k := hk ▸ p.comma_notMem
  rw [List.mem_cons, not_or] at hc
  have hrender : renderPairs (p :: pairs) =
      c :: (k ++ ([equalSign] ++ (p.value.render ++ following pairs))) := by
    rw [renderPairs_cons, Pair.render, hk]
    simp
  rw [hrender, searchFrom, Occurrences.firstAfter, ← hrender, hhit]
  split
  next h => rw [if_pos h.2]
  next h =>
    rw [if_neg fun he => h ⟨rfl, he⟩, decide_eq_false (Ne.symm hc.1)]
    refine (searchFrom_append hc.2 _).trans ?_
    exact (searchFrom_append (by decide) _).trans (searchFrom_value hcomma p.value pairs)

theorem findIdx?_append_self (hu : b ∉ u) (rest : Bytes) :
    (u ++ b :: rest).findIdx? (fun c => c = b) = some u.length := by
  have hnone : u.findIdx? (fun c => c = b) = none := by
    rw [List.findIdx?_eq_none_iff]
    intro c hc
    have hne : c ≠ b := fun he => hu (he ▸ hc)
    simpa using hne
  rw [List.findIdx?_append, hnone]
  simp [List.findIdx?_cons]

theorem head?_following (pairs : List Pair) : (following pairs).head? ≠ some openBrace := by
  cases pairs <;> simp [following, show comma ≠ openBrace by decide]

theorem substrTo_plain {text : Bytes} (htext : comma ∉ text) (pairs : List Pair) :
    substrTo (equalSign :: (text ++ following pairs)) 1
      ((equalSign :: (text ++ following pairs)).findIdx? fun c => c = comma) = text := by
  have hopen : comma ∉ equalSign :: text := by simpa [show comma ≠ equalSign by decide] using htext
  cases pairs with
  | nil =>
    have hnone : (equalSign :: text).findIdx? (fun c => c = comma) = none := by
      rw [List.findIdx?_eq_none_iff]
      intro c hc
      have hne : c ≠ comma := fun he => hopen (he ▸ hc)
      simpa using hne
    simp [following, hnone, substrTo]
  | cons p pairs =>
    have hfind := findIdx?_append_self hopen (renderPairs (p :: pairs))
    rw [List.cons_append] at hfind
    simp [following, hfind, substrTo]

theorem valueAt_renderPairs (p : Pair) (pairs : List Pair) :
    valueAt (renderPairs (p :: pairs)) = (true, p.value.contents) := by
  have hrender : renderPairs (p :: pairs) =
      p.key ++ equalSign :: (p.value.render ++ following pairs) := by
    rw [renderPairs_cons, Pair.render]
    simp
  have hnext : (p.key ++ equalSign :: (p.value.render ++ following pairs))[p.key.length + 1]? =
      (p.value.render ++ following pairs).head? := by
    rw [List.getElem?_append_right (by omega), List.head?_eq_getElem?]
    simp
  rw [hrender, valueAt, findIdx?_append_self p.equalSign_notMem]
  dsimp only
  rw [hnext, List.drop_left]
  cases p.value with
  | plain text htext hhead =>
    have hplain : (text ++ following pairs).head? ≠ some openBrace := by
      cases text with
      | nil => exact head?_following pairs
      | cons c text => exact hhead
    rw [PairValue.render, if_neg hplain, substrTo_plain htext]
    rfl
  | list items hitems =>
    have hopen : closeBrace ∉ equalSign :: openBrace :: [comma].intercalate items := by
      simpa [show closeBrace ≠ equalSign by decide, show closeBrace ≠ openBrace by decide] using
        notMem_intercalate (show closeBrace ≠ comma by decide) fun item hitem => (hitems item hitem).2
    have hfind := findIdx?_append_self hopen (following pairs)
    simp only [List.cons_append] at hfind
    simp [PairValue.render, hfind, substrTo, PairValue.contents]

theorem searchFrom_renderPairs (hcomma : comma ∉ key) (hequal : equalSign ∉ key) (pairs : List Pair) :
    (searchFrom key true (renderPairs pairs)).map valueAt =
      (lookup key pairs).map fun p => (true, p.value.contents) := by
  induction pairs with
  | nil => rfl
  | cons p pairs ih =>
    rw [searchFrom_cons hcomma hequal, lookup, List.find?_cons]
    cases iequals p.key key with
    | true => simp [valueAt_renderPairs]
    | false => simpa [lookup] using ih

/-- The example of the source, with a key that ends like another and one in capitals. -/
def samplePairs : List Pair :=
  [⟨ascii "foo", .plain (ascii "o=1") (by decide) (by decide), by decide, by decide, by decide⟩,
   ⟨ascii "BAR", .list [ascii "2", ascii "3", []] (by decide), by decide, by decide, by decide⟩,
   ⟨ascii "o", .plain (ascii "\x7d") (by decide) (by decide), by decide, by decide, by decide⟩]

/-- The search ends, and finds the value of the first pair of the key if there is one. -/
theorem valFromString_renderPairs (pairs : List Pair) (key : Bytes) (hcomma : comma ∉ key)
    (hequal : equalSign ∉ key) :
    ∃ enough, ∀ rounds, enough ≤ rounds → valFromString rounds (renderPairs pairs) key =
      some (match lookup key pairs with
        | none => (false, [])
        | some p => (true, p.value.contents)) := by
  refine ⟨(renderPairs pairs).length + 1, fun rounds hrounds => ?_⟩
  have hlength := @length_positions_le key (renderPairs pairs)
  have hsearch := searchFrom_renderPairs hcomma hequal pairs
  rw [searchFrom, ← Occurrences.find?_positions] at hsearch
  rw [valFromString, startLoop_eq hequal _ (Nat.zero_le _) (by omega), List.drop_zero, Option.map_some]
  generalize (Occurrences.positions (keyHit key) (renderPairs pairs)).find? _ = found at hsearch ⊢
  cases found <;> cases hlookup : lookup key pairs <;> simp [hlookup] at hsearch ⊢
  exact hsearch

theorem valFromString_samplePairs :
    renderPairs samplePairs = ascii "foo=o=1,BAR=\x7b2,3,\x7d,o=\x7d" ∧
    (∃ enough, ∀ rounds, enough ≤ rounds →
      valFromString rounds (renderPairs samplePairs) (ascii "O") = some (true, ascii "\x7d")) ∧
    (∃ enough, ∀ rounds, enough ≤ rounds →
      valFromString rounds (renderPairs samplePairs) (ascii "bar") = some (true, ascii "2,3,")) ∧
    ∃ enough, ∀ rounds, enough ≤ rounds →
      valFromString rounds (renderPairs samplePairs) (ascii "2") = some (false, []) :=
  ⟨by decide, valFromString_renderPairs samplePairs (ascii "O") (by decide) (by decide),
    valFromString_renderPairs samplePairs (ascii "bar") (by decide) (by decide),
    valFromString_renderPairs samplePairs (ascii "2") (by decide) (by decide)⟩

end Goby.Moos
