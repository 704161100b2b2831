import Mathlib.Data.Int.Notation
import Mathlib.Data.Nat.Notation
import Mathlib.Tactic.Common

/-!
# Reading a log with a cursor

A log has values at positions and grows at its end. A reader asks for what lies behind its
cursor, and then puts the cursor right behind something it was given. Several readers may hand
cursors to each other, and start again from older ones.

- `Extends`: a log with more at its end.
- `Reached log seen x`: a reader may be at `x` once all in between has been seen. The entry at
  0 is not: nobody asks for what lies behind a smaller position.
- `Reached.advance`: the cursor may be put behind an entry, if nothing before it was left out.
-/

namespace Cursor

variable {V : Type*} {log log' : ℕ → V → Prop} {seen seen' : ℕ → V → Prop} {x : ℤ}

structure Extends (log log' : ℕ → V → Prop) : Prop where
  keeps : ∀ o v, log o v → log' o v
  behind : ∀ o v l w, log' o v → log l w → o ≤ l → log o v

/-- No entry stands right behind another one. -/
def Spaced (log : ℕ → V → Prop) : Prop := ∀ o v w, log o v → ¬ log (o + 1) w

/-- A cursor at `x`, and everything behind 0 and before it has been seen. -/
structure Reached (log seen : ℕ → V → Prop) (x : ℤ) : Prop where
  placed : x = 0 ∨ ∃ o v, log o v ∧ x = o + 1
  seen : ∀ o v, log o v → 0 < o → (o : ℤ) < x → seen o v

theorem Reached.zero (log seen : ℕ → V → Prop) : Reached log seen 0 where
  placed := Or.inl rfl
  seen o _ _ hpos hlt := by omega

theorem Reached.mono (h : Reached log seen x) (hle : ∀ o v, seen o v → seen' o v) :
    Reached log seen' x where
  placed := h.placed
  seen o v hlog hpos hlt := hle o v (h.seen o v hlog hpos hlt)

theorem Reached.extend (h : Reached log seen x) (hext : Extends log log') :
    Reached log' seen x where
  placed := by
    rcases h.placed with hzero | ⟨o, v, hlog, hx⟩
    · exact Or.inl hzero
    · exact Or.inr ⟨o, v, hext.keeps o v hlog, hx⟩
  seen o v hlog hpos hlt := by
    rcases h.placed with hzero | ⟨l, w, hl, hx⟩
    · omega
    · exact h.seen o v (hext.behind o v l w hlog hl (by omega)) hpos hlt

/-- A batch up to `last` takes the cursor behind it, with nothing left out. -/
theorem Reached.advance (hspaced : Spaced log) (h : Reached log seen x)
    (hle : ∀ o v, seen o v → seen' o v) {last : ℕ} {v : V} (hlast : log last v)
    (hbatch : ∀ o v, log o v → x < o → o ≤ last → seen' o v) :
    Reached log seen' (last + 1) where
  placed := Or.inr ⟨last, v, hlast, rfl⟩
  seen o w hlog hpos hlt := by
    rcases Int.lt_trichotomy (o : ℤ) x with hbefore | hat | hbehind
    · exact hle o w (h.seen o w hlog hpos hbefore)
    · -- nothing stands at the cursor itself
      rcases h.placed with hzero | ⟨l, u, hl, hx⟩
      · omega
      · have hnext : o = l + 1 := by omega
        exact absurd (hnext ▸ hlog) (hspaced l u w hl)
    · exact hbatch o w hlog hbehind (by omega)

end Cursor
