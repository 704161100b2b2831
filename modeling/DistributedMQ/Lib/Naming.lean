import Mathlib.Data.Int.Notation
import Mathlib.Data.Nat.Notation
import Mathlib.Tactic.Common

/-!
# Formatted names and file paths

Byte strings, integers printed in decimal, and lexically cleaned file paths.

- `formatInt`: an integer in decimal, as `%d` prints it.
- `dashed_eq_iff`: a string, a dash and a number determine the string and the
  number, except that `s--n` can be read with the number `-n` behind `s` or with
  the number `n` behind `s-`.
- `FilePath.join`: path elements joined and cleaned, as lists of components.
- `FilePath.join_concat_inj`: below one directory, names that are components of
  their own give different paths.
- `FilePath.lastByte_join`: a path ends as its last element does.
-/

namespace Naming

/-- A byte string. -/
abbrev ByteString : Type := List UInt8

/-- The byte `-`. -/
def dash : UInt8 := 45

/-! ## Text -/

/-- A byte string as text, one character for each byte. -/
def text (s : ByteString) : String := String.ofList (s.map fun b => Char.ofNat b.toNat)

/-! ## Numbers -/

/-- A natural number in decimal. -/
def decimal (n : ℕ) : ByteString := (Nat.toDigits 10 n).map fun c => UInt8.ofNat c.toNat

/-- An integer in decimal. -/
def formatInt (n : ℤ) : ByteString := (if n < 0 then [dash] else []) ++ decimal n.natAbs

theorem toNat_digit {c : Char} (hc : c.isDigit = true) : 48 ≤ c.toNat ∧ c.toNat ≤ 57 := by
  have h : 48 ≤ c.val ∧ c.val ≤ 57 := by simpa [Char.isDigit] using hc
  exact ⟨h.1, h.2⟩

theorem toNat_ofNat_digit {c : Char} (hc : c.isDigit = true) :
    (UInt8.ofNat c.toNat).toNat = c.toNat := by
  have h := toNat_digit hc
  rw [UInt8.toNat_ofNat']
  omega

theorem decimal_inj {m n : ℕ} (h : decimal m = decimal n) : m = n := by
  -- the digits can be read back from the bytes
  have hback : ∀ n, (decimal n).map (fun b => Char.ofNat b.toNat) = Nat.toDigits 10 n := by
    intro n
    rw [decimal, List.map_map]
    refine (List.map_congr_left fun c hc => ?_).trans (List.map_id _)
    have hc := Nat.isDigit_of_mem_toDigits (b := 10) (by decide) (Nat.le_refl 10) hc
    show Char.ofNat (UInt8.ofNat c.toNat).toNat = c
    rw [toNat_ofNat_digit hc, Char.ofNat_toNat]
  have hdigits : Nat.toDigits 10 m = Nat.toDigits 10 n := by rw [← hback, h, hback]
  rw [← @Nat.ofDigitChars_toDigits 10 m (by decide) (Nat.le_refl 10), hdigits,
    Nat.ofDigitChars_toDigits (by decide) (Nat.le_refl 10)]

/-- The bytes are those of `0` to `9`. -/
theorem mem_decimal {n : ℕ} {x : UInt8} (h : x ∈ decimal n) : 48 ≤ x.toNat ∧ x.toNat ≤ 57 := by
  obtain ⟨c, hc, rfl⟩ := List.mem_map.mp h
  have hc := Nat.isDigit_of_mem_toDigits (b := 10) (by decide) (Nat.le_refl 10) hc
  rw [toNat_ofNat_digit hc]
  exact toNat_digit hc

theorem dash_notMem_decimal (n : ℕ) : dash ∉ decimal n := fun hmem =>
  absurd (mem_decimal hmem).1 (by decide)

/-! ## A string, a dash, a number -/

/-- `%s-%d`. -/
def dashed (s : ByteString) (n : ℤ) : ByteString := s ++ dash :: formatInt n

/-- The last dash is in front of the digits. -/
theorem dashed_eq (s : ByteString) (n : ℤ) :
    dashed s n = (s ++ if n < 0 then [dash] else []) ++ dash :: decimal n.natAbs := by
  rw [dashed, formatInt]
  split <;> simp

/-- Two strings agree before and behind the last occurrence of a byte. -/
theorem split_last {a : UInt8} {s s' t t' : ByteString} (ht : a ∉ t) (ht' : a ∉ t')
    (h : s ++ a :: t = s' ++ a :: t') : s = s' ∧ t = t' := by
  rcases List.append_eq_append_iff.mp h with ⟨l, rfl, hl⟩ | ⟨l, rfl, hl⟩
  · cases l with
    | nil => exact ⟨(List.append_nil s).symm, (List.cons.inj hl).2⟩
    | cons x l =>
      obtain ⟨rfl, rfl⟩ := List.cons.inj hl
      exact absurd (by simp) ht
  · cases l with
    | nil => exact ⟨List.append_nil s', ((List.cons.inj hl).2).symm⟩
    | cons x l =>
      obtain ⟨rfl, rfl⟩ := List.cons.inj hl
      exact absurd (by simp) ht'

/-- **Collisions.** Two pairs are printed alike only if they are the same, or
one has a negative number and the other one its absolute value and a dash more. -/
theorem dashed_eq_iff {s s' : ByteString} {n n' : ℤ} :
    dashed s n = dashed s' n' ↔
      s = s' ∧ n = n' ∨ n < 0 ∧ n' = -n ∧ s' = s ++ [dash] ∨
        n' < 0 ∧ n = -n' ∧ s = s' ++ [dash] := by
  rw [dashed_eq, dashed_eq]
  constructor
  · intro h
    obtain ⟨hs, hn⟩ := split_last (dash_notMem_decimal _) (dash_notMem_decimal _) h
    have habs := decimal_inj hn
    -- one case for each pair of signs
    split at hs <;> split at hs
    · exact Or.inl ⟨List.append_cancel_right hs, by omega⟩
    · rw [List.append_nil] at hs
      exact Or.inr (Or.inl ⟨by assumption, by omega, hs.symm⟩)
    · rw [List.append_nil] at hs
      exact Or.inr (Or.inr ⟨by assumption, by omega, hs⟩)
    · rw [List.append_nil, List.append_nil] at hs
      exact Or.inl ⟨hs, by omega⟩
  · rintro (⟨rfl, rfl⟩ | ⟨hneg, rfl, rfl⟩ | ⟨hneg, rfl, rfl⟩)
    · rfl
    · rw [if_pos hneg, if_neg (by omega), List.append_nil, Int.natAbs_neg]
    · rw [if_pos hneg, if_neg (by omega), List.append_nil, Int.natAbs_neg]

/-- Numbers that are not negative do not collide. -/
theorem dashed_inj {s s' : ByteString} {n n' : ℤ} (hn : 0 ≤ n) (hn' : 0 ≤ n')
    (h : dashed s n = dashed s' n') : s = s' ∧ n = n' := by
  rcases dashed_eq_iff.mp h with h | ⟨hneg, -⟩ | ⟨hneg, -⟩
  · exact h
  · omega
  · omega

/-- Numbers are printed differently. -/
theorem formatInt_inj {n n' : ℤ} (h : formatInt n = formatInt n') : n = n' := by
  have hdashed : dashed [] n = dashed [] n' := congrArg (fun s => [] ++ dash :: s) h
  rcases dashed_eq_iff.mp hdashed with ⟨_, heq⟩ | ⟨_, _, hs⟩ | ⟨_, _, hs⟩
  · exact heq
  · exact absurd hs (by simp)
  · exact absurd hs (by simp)

/-! ## Paths -/

/-- The byte `/`. -/
def slash : UInt8 := 47

theorem slash_notMem_formatInt (n : ℤ) : slash ∉ formatInt n := by
  rw [formatInt, List.mem_append, not_or]
  constructor
  · split <;> decide
  · exact fun hmem => absurd (mem_decimal hmem).1 (by decide)

/-- The element `..`. -/
def parent : ByteString := [46, 46]

/-- A cleaned path: whether it is rooted, and its components, the last one
first. -/
structure FilePath where
  rooted : Bool
  components : List ByteString
deriving DecidableEq

namespace FilePath

/-- One component more. Empty ones and `.` change nothing; `..` takes back the
component before it if there is one, and is dropped at the root. -/
def push (rooted : Bool) (components : List ByteString) (c : ByteString) : List ByteString :=
  if c = [] ∨ c = [46] then components
  else if c = parent then
    match components with
    | [] => if rooted then [] else [parent]
    | last :: rest => if last = parent then parent :: last :: rest else rest
  else c :: components

/-- The elements joined by slashes, then cleaned. -/
def join (elems : List ByteString) : FilePath :=
  let rooted := (elems.find? (· ≠ [])).any fun first => first.head? = some slash
  { rooted := rooted
    components := (elems.flatMap (List.splitOn slash)).foldl (push rooted) [] }

/-- A string that is a component of its own and stays one. -/
structure Component (c : ByteString) : Prop where
  slash : slash ∉ c
  nonempty : c ≠ []
  dot : c ≠ [46]
  parent : c ≠ parent

theorem splitOn_of_notMem {c : ByteString} (hc : Naming.slash ∉ c) :
    List.splitOn Naming.slash c = [c] := by
  refine List.splitOnP_eq_singleton fun x hx => ?_
  rw [beq_eq_false_iff_ne]
  rintro rfl
  exact hc hx

theorem splitOn_component {c : ByteString} (hc : Component c) :
    List.splitOn Naming.slash c = [c] :=
  splitOn_of_notMem hc.slash

theorem push_component {c : ByteString} (hc : Component c) (rooted : Bool)
    (components : List ByteString) : push rooted components c = c :: components := by
  have hkept : ¬(c = [] ∨ c = [46]) := by
    rintro (h | h)
    · exact hc.nonempty h
    · exact hc.dot h
  unfold push
  rw [if_neg hkept, if_neg hc.parent]

/-- A component behind a directory becomes the last one of the path. -/
theorem join_concat {dir : List ByteString} (hdir : ∃ elem ∈ dir, elem ≠ []) {c : ByteString}
    (hc : Component c) :
    join (dir ++ [c]) =
      { rooted := (join dir).rooted, components := c :: (join dir).components } := by
  have hfind : (dir ++ [c]).find? (· ≠ []) = dir.find? (· ≠ []) := by
    rw [List.find?_append]
    cases hx : dir.find? (· ≠ []) with
    | none =>
      obtain ⟨elem, hmem, hne⟩ := hdir
      exact absurd (List.find?_eq_none.mp hx elem hmem) (by simpa using hne)
    | some _ => rfl
  rw [join, join, hfind]
  simp only [List.flatMap_append, List.flatMap_cons, List.flatMap_nil, splitOn_component hc,
    List.append_nil, List.foldl_append, List.foldl_cons, List.foldl_nil, push_component hc]

/-- In one directory different names have different paths. -/
theorem join_concat_inj {dir : List ByteString} (hdir : ∃ elem ∈ dir, elem ≠ [])
    {c c' : ByteString} (hc : Component c) (hc' : Component c')
    (h : join (dir ++ [c]) = join (dir ++ [c'])) : c = c' := by
  rw [join_concat hdir hc, join_concat hdir hc'] at h
  exact (List.cons.inj (FilePath.mk.inj h).2).1

/-- The last byte of the last component. -/
def lastByte (path : FilePath) : Option UInt8 := path.components.head?.bind List.getLast?

/-- What is behind the last slash. -/
theorem exists_last_piece {elem : ByteString} {x : UInt8} (hlast : elem.getLast? = some x)
    (hx : x ≠ Naming.slash) :
    ∃ pieces c, List.splitOn Naming.slash elem = pieces ++ [c] ∧ Naming.slash ∉ c ∧
      c.getLast? = some x := by
  by_cases hmem : Naming.slash ∈ elem
  · obtain ⟨c, rest, helem, hc⟩ := List.eq_append_cons_of_mem (List.mem_reverse.mpr hmem)
    have helem' : elem = rest.reverse ++ Naming.slash :: c.reverse := by
      rw [← List.reverse_reverse elem, helem, List.reverse_append, List.reverse_cons,
        List.append_assoc]
      rfl
    have hc' : Naming.slash ∉ c.reverse := fun h => hc (List.mem_reverse.mp h)
    refine ⟨List.splitOn Naming.slash rest.reverse, c.reverse, ?_, hc', ?_⟩
    · rw [helem', List.splitOn, List.splitOnP_append_cons (p := (· == Naming.slash)) _ _
        (beq_self_eq_true _)]
      exact congrArg _ (splitOn_of_notMem hc')
    · rw [List.getLast?_reverse]
      rw [← List.head?_reverse, helem] at hlast
      cases c with
      | nil => exact absurd (Option.some.inj hlast).symm hx
      | cons y c => exact hlast
  · exact ⟨[], elem, splitOn_of_notMem hmem, hmem, hlast⟩

/-- **A path ends as its last element does**, if that does not end in a slash or a dot. -/
theorem lastByte_join (dir : List ByteString) {elem : ByteString} {x : UInt8}
    (hlast : elem.getLast? = some x) (hslash : x ≠ Naming.slash) (hdot : x ≠ 46) :
    (join (dir ++ [elem])).lastByte = some x := by
  obtain ⟨pieces, c, hsplit, hc, hx⟩ := exists_last_piece hlast hslash
  have hcomponent : Component c := by
    refine ⟨hc, ?_, ?_, ?_⟩
    · rintro rfl
      cases hx
    · rintro rfl
      exact hdot (Option.some.inj hx).symm
    · rintro rfl
      exact hdot (Option.some.inj hx).symm
  rw [join, lastByte]
  simp only [List.flatMap_append, List.flatMap_cons, List.flatMap_nil, hsplit, List.append_nil,
    List.foldl_append, List.foldl_cons, List.foldl_nil, push_component hcomponent, List.head?_cons,
    Option.bind_some, hx]

end FilePath

/-- A number ends in a digit. -/
theorem getLast?_formatInt (n : ℤ) :
    ∃ x, (formatInt n).getLast? = some x ∧ 48 ≤ x.toNat ∧ x.toNat ≤ 57 := by
  have hne : decimal n.natAbs ≠ [] := by
    rw [decimal, Ne, List.map_eq_nil_iff]
    exact Nat.toDigits_ne_nil
  obtain ⟨x, hx⟩ := Option.ne_none_iff_exists'.mp (mt List.getLast?_eq_none_iff.mp hne)
  refine ⟨x, ?_, mem_decimal (List.mem_of_getLast? hx)⟩
  rw [formatInt, List.getLast?_append, hx, Option.some_or]

end Naming
