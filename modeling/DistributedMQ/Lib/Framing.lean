import Mathlib.Data.List.Basic
import Mathlib.Data.List.Induction
import Mathlib.Tactic.Common

/-!
# Streams of frames

A decoder looks at the bytes that have arrived. It waits for more, or takes a frame off the
front, or fails. It is called again as long as frames come out, and once more bytes arrive.

- `drain`: call the decoder until it waits or fails.
- `feed`: append a chunk to the bytes that are left and drain them.
- `Delimits`: the decoder takes every frame off any stream it is at the front of, and waits as
  long as a part of it is missing.
- `drain_eq`, `feed_eq`: then what comes out of the front part of a stream are the frames that
  are whole in it, whatever the chunks are.
-/

namespace Framing

/-- What a decoder makes of the bytes it is given. -/
inductive Outcome (α β : Type) where
  | wait
  | fail
  | emit (a : α) (rest : List β)

variable {α β γ : Type}

/-- The same, with something else made of what comes out. -/
def Outcome.map {α' : Type} (f : α → α') : Outcome α β → Outcome α' β
  | wait => wait
  | fail => fail
  | emit a rest => emit (f a) rest

/-- A front part that is long enough has all of the first piece. -/
theorem exists_of_prefix_append {a b part : List β} (h : part <+: a ++ b)
    (hlen : a.length ≤ part.length) : ∃ p, part = a ++ p ∧ p <+: b := by
  obtain ⟨p, rfl⟩ := List.prefix_of_prefix_length_le (List.prefix_append a b) h hlen
  exact ⟨p, rfl, (List.prefix_append_right_inj a).mp h⟩

/-- Call the decoder until it waits or fails; what has come out, and the bytes that are left
unless it has failed. An empty buffer is not decoded. -/
def drain (dec : List β → Outcome α β) : ℕ → List β → List α × Option (List β)
  | 0, bytes => ([], some bytes)
  | _ + 1, [] => ([], some [])
  | fuel + 1, b :: bytes =>
    match dec (b :: bytes) with
    | .wait => ([], some (b :: bytes))
    | .fail => ([], none)
    | .emit a rest =>
      let later := drain dec fuel rest
      (a :: later.1, later.2)

/-- A chunk arrives behind the bytes that are left. Every frame takes a byte, so there are at
most as many calls as bytes. -/
def feed (dec : List β → Outcome α β) (s : List α × Option (List β)) (chunk : List β) :
    List α × Option (List β) :=
  match s.2 with
  | none => s
  | some bytes =>
    let drained := drain dec (bytes ++ chunk).length (bytes ++ chunk)
    (s.1 ++ drained.1, drained.2)

/-- The decoder reads off the frames that `enc` writes; `out` is what it makes of them. -/
structure Delimits (dec : List β → Outcome α β) (enc : γ → List β) (out : γ → α)
    (ok : γ → Prop) : Prop where
  ne_nil : ∀ c, ok c → enc c ≠ []
  whole : ∀ c, ok c → ∀ rest, dec (enc c ++ rest) = .emit (out c) rest
  cut : ∀ c, ok c → ∀ part, part <+: enc c → part ≠ enc c → part ≠ [] → dec part = .wait

/-- In the front part `bytes` of a stream of frames the first `k` are whole, and `rest` is what
there is of the next one. -/
structure Arrived (enc : γ → List β) (frames : List γ) (bytes : List β) (k : ℕ)
    (rest : List β) : Prop where
  le : k ≤ frames.length
  bytes : bytes = (frames.take k).flatMap enc ++ rest
  next : ∀ c, frames[k]? = some c → rest <+: enc c ∧ rest ≠ enc c
  last : k = frames.length → rest = []

variable {dec : List β → Outcome α β} {enc : γ → List β} {out : γ → α} {ok : γ → Prop}
  {frames : List γ} {bytes rest : List β} {k : ℕ}

theorem Arrived.nil (enc : γ → List β) : Arrived enc [] [] 0 [] where
  le := Nat.le_refl 0
  bytes := rfl
  next _ h := absurd h.symm (Option.some_ne_none _)
  last _ := rfl

/-- Nothing has arrived. -/
theorem Arrived.start (hne : ∀ c ∈ frames, enc c ≠ []) : Arrived enc frames [] 0 [] where
  le := Nat.zero_le _
  bytes := rfl
  next c hc := ⟨List.nil_prefix, (hne c (List.mem_of_getElem? hc)).symm⟩
  last _ := rfl

/-- A frame in front. -/
theorem Arrived.cons (h : Arrived enc frames bytes k rest) (c : γ) :
    Arrived enc (c :: frames) (enc c ++ bytes) (k + 1) rest where
  le := Nat.succ_le_succ h.le
  bytes := by
    rw [h.bytes, List.take_succ_cons, List.flatMap_cons, List.append_assoc]
  next c' hc' := h.next c' (by rwa [List.getElem?_cons_succ] at hc')
  last hk := h.last (Nat.succ.inj hk)

/-- More bytes arrive. -/
theorem Arrived.trans (h : Arrived enc frames bytes k rest) {chunk : List β} {j : ℕ}
    {rest' : List β} (h' : Arrived enc (frames.drop k) (rest ++ chunk) j rest') :
    Arrived enc frames (bytes ++ chunk) (k + j) rest' where
  le := by
    have hj := h'.le
    have hk := h.le
    rw [List.length_drop] at hj
    omega
  bytes := by
    rw [h.bytes, List.append_assoc, h'.bytes, ← List.append_assoc, ← List.flatMap_append,
      ← List.take_add]
  next c hc := h'.next c (by rwa [List.getElem?_drop])
  last hk := h'.last (by rw [List.length_drop]; omega)

/-- Once the whole stream has arrived all its frames are whole. -/
theorem Arrived.eq_length (h : Arrived enc frames (frames.flatMap enc) k rest) :
    k = frames.length := by
  rcases Nat.lt_or_eq_of_le h.le with hlt | heq
  · obtain ⟨hpart, hne⟩ := h.next _ (List.getElem?_eq_getElem hlt)
    have hsplit : frames.flatMap enc =
        (frames.take k).flatMap enc ++ (frames.drop k).flatMap enc := by
      rw [← List.flatMap_append, List.take_append_drop]
    have hrest : rest = (frames.drop k).flatMap enc :=
      List.append_cancel_left (h.bytes.symm.trans hsplit)
    rw [List.drop_eq_getElem_cons hlt, List.flatMap_cons] at hrest
    refine absurd (hpart.eq_of_length_le ?_) hne
    rw [hrest, List.length_append]
    exact Nat.le_add_right _ _
  · exact heq

/-- **Drain.** What comes out of the front part of a stream are the frames that are whole in
it. -/
theorem drain_eq (h : Delimits dec enc out ok) (hok : ∀ c ∈ frames, ok c)
    (hbytes : bytes <+: frames.flatMap enc) {fuel : ℕ} (hfuel : bytes.length ≤ fuel) :
    ∃ k rest, Arrived enc frames bytes k rest ∧
      drain dec fuel bytes = ((frames.take k).map out, some rest) := by
  induction frames generalizing bytes fuel with
  | nil =>
    obtain rfl := List.prefix_nil.mp hbytes
    refine ⟨0, [], Arrived.nil enc, ?_⟩
    cases fuel <;> rfl
  | cons c frames ih =>
    obtain ⟨hc, hframes⟩ := List.forall_mem_cons.mp hok
    rw [List.flatMap_cons] at hbytes
    by_cases hwhole : enc c <+: bytes
    · -- the first frame is whole
      obtain ⟨later, rfl⟩ := hwhole
      have hpos := List.length_pos_iff.mpr (h.ne_nil c hc)
      rw [List.length_append] at hfuel
      obtain ⟨fuel, rfl⟩ : ∃ n, fuel = n + 1 := ⟨fuel - 1, by omega⟩
      have hlater : later.length ≤ fuel := by omega
      obtain ⟨k, rest, harrived, hdrain⟩ :=
        ih hframes ((List.prefix_append_right_inj _).mp hbytes) hlater
      refine ⟨k + 1, rest, harrived.cons c, ?_⟩
      have hstep : drain dec (fuel + 1) (enc c ++ later) =
          (out c :: (drain dec fuel later).1, (drain dec fuel later).2) := by
        have hdec := h.whole c hc later
        cases henc : enc c ++ later with
        | nil => exact absurd (List.append_eq_nil_iff.mp henc).1 (h.ne_nil c hc)
        | cons b bs =>
          rw [henc] at hdec
          simp only [drain, hdec]
      rw [hstep, hdrain, List.take_succ_cons, List.map_cons]
    · -- it is not, and the decoder waits for it
      have hpart : bytes <+: enc c :=
        (List.prefix_or_prefix_of_prefix hbytes (List.prefix_append _ _)).resolve_right hwhole
      have hne : bytes ≠ enc c := fun heq => hwhole (heq ▸ List.prefix_rfl)
      refine ⟨0, bytes, ⟨Nat.zero_le _, rfl, fun c' hc' => ?_, fun hk => ?_⟩, ?_⟩
      · cases hc'
        exact ⟨hpart, hne⟩
      · exact absurd hk.symm (Nat.succ_ne_zero _)
      · cases fuel with
        | zero => rfl
        | succ fuel =>
          cases bytes with
          | nil => rfl
          | cons b bytes =>
            simp only [drain, h.cut c hc _ hpart hne (List.cons_ne_nil _ _)]
            rfl

/-- What comes out has been taken off the front of something. -/
theorem exists_dec_of_mem_drain {a : α} {fuel : ℕ} (h : a ∈ (drain dec fuel bytes).1) :
    ∃ bytes rest, dec bytes = .emit a rest := by
  induction fuel generalizing bytes with
  | zero => exact absurd h List.not_mem_nil
  | succ fuel ih =>
    cases bytes with
    | nil => exact absurd h List.not_mem_nil
    | cons b bytes =>
      rw [drain] at h
      cases hdec : dec (b :: bytes) with
      | wait =>
        rw [hdec] at h
        exact absurd h List.not_mem_nil
      | fail =>
        rw [hdec] at h
        exact absurd h List.not_mem_nil
      | emit a' rest =>
        rw [hdec] at h
        rcases List.mem_cons.mp h with rfl | hlater
        · exact ⟨_, _, hdec⟩
        · exact ih hlater

theorem drain_eq_nil_iff {fuel : ℕ} : drain dec fuel bytes = ([], some []) ↔ bytes = [] := by
  constructor
  · intro h
    cases fuel with
    | zero => exact Option.some.inj (Prod.mk.inj h).2
    | succ fuel =>
      cases bytes with
      | nil => rfl
      | cons b bytes =>
        rw [drain] at h
        split at h
        · exact Option.some.inj (Prod.mk.inj h).2
        · exact absurd (Prod.mk.inj h).2.symm (Option.some_ne_none _)
        · exact absurd (Prod.mk.inj h).1 (List.cons_ne_nil _ _)
  · rintro rfl
    cases fuel <;> rfl

/-- One frame and nothing else comes out of some bytes iff the decoder takes all of them. -/
theorem drain_eq_singleton_iff {a : α} (hbytes : bytes ≠ []) :
    drain dec bytes.length bytes = ([a], some []) ↔ dec bytes = .emit a [] := by
  obtain ⟨b, bytes, rfl⟩ := List.exists_cons_of_ne_nil hbytes
  rw [List.length_cons, drain]
  cases hdec : dec (b :: bytes) with
  | wait => simp
  | fail => simp
  | emit a' rest =>
    have hlater : drain dec bytes.length rest = ([], some []) ↔ rest = [] := drain_eq_nil_iff
    rw [Prod.ext_iff] at hlater
    simp only [Prod.mk.injEq, List.cons.injEq, Outcome.emit.injEq, and_assoc, hlater]

/-- A whole stream is drained to the end. -/
theorem drain_flatMap (h : Delimits dec enc out ok) (hok : ∀ c ∈ frames, ok c) {fuel : ℕ}
    (hfuel : (frames.flatMap enc).length ≤ fuel) :
    drain dec fuel (frames.flatMap enc) = (frames.map out, some []) := by
  obtain ⟨k, rest, harrived, hdrain⟩ := drain_eq h hok List.prefix_rfl hfuel
  have hk := harrived.eq_length
  rw [hdrain, hk, List.take_length, harrived.last hk]

/-- **Chunks.** However a front part of the stream is cut into chunks, the frames that are
whole in it have come out. -/
theorem feed_eq (h : Delimits dec enc out ok) (hok : ∀ c ∈ frames, ok c)
    {chunks : List (List β)} (hchunks : chunks.flatten <+: frames.flatMap enc) :
    ∃ k rest, Arrived enc frames chunks.flatten k rest ∧
      chunks.foldl (feed dec) ([], some []) = ((frames.take k).map out, some rest) := by
  induction chunks using List.reverseRecOn with
  | nil =>
    exact ⟨0, [], Arrived.start fun c hc => h.ne_nil c (hok c hc), rfl⟩
  | append_singleton chunks chunk ih =>
    have hflat : (chunks ++ [chunk]).flatten = chunks.flatten ++ chunk := by
      rw [List.flatten_append, List.flatten_singleton]
    rw [hflat] at hchunks ⊢
    obtain ⟨k, rest, harrived, hfold⟩ := ih ((List.prefix_append _ _).trans hchunks)
    -- what is left and the chunk are at the front of the frames that are not out yet
    have hleft : rest ++ chunk <+: (frames.drop k).flatMap enc := by
      rw [← List.take_append_drop k frames, List.flatMap_append, harrived.bytes,
        List.append_assoc] at hchunks
      exact (List.prefix_append_right_inj _).mp hchunks
    obtain ⟨j, rest', harrived', hdrain⟩ :=
      drain_eq h (fun c hc => hok c (List.mem_of_mem_drop hc)) hleft (Nat.le_refl _)
    refine ⟨k + j, rest', harrived.trans harrived', ?_⟩
    rw [List.foldl_append, hfold, List.foldl_cons, List.foldl_nil, feed]
    simp only [hdrain]
    rw [← List.map_append, ← List.take_add]

end Framing
