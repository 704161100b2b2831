import DistributedMQ.Lib.BigEndian
import DistributedMQ.Lib.History
import DistributedMQ.Lib.Machine
import DistributedMQ.Lib.Naming
import DistributedMQ.Raft.Types

/-!
# Committed offsets (`offset_store.go`, `nameserver.go` lines 61–80, 527–577 and 623–667)

A consumer group's position in a partition is kept in a bucket of a bbolt file, under
`fmt.Sprintf("%s/%s/%d", groupID, topic, partition)`. The bucket is a map from byte keys.

`NewNameServer` opens the file first; that fails if the directory `./data/nameserver` does not
exist, and the error is dropped. The transaction coordinator, which comes next, makes the
directory. Without a store `handleCommitOffset` answers `ok` and `handleGetOffset` answers 0.
The errors of single transactions of the file are inputs.

`OffsetServer` keeps, over all starts of the process, the commits that were answered `ok`.

- `BucketInv`: the bucket holds, under every key, the last offset that was saved there.
- `offsets_kept`: as long as commits come when there is a store, and for names that no other
  names have the key of, `handleGetOffset` returns the last offset that was committed.
- `offsets_lost_or_mixed_up`: the first start loses commits, and `a/b`, `c` is `a`, `b/c`.
-/

namespace DistributedMQ.NameServer

open Machine History Naming BigEndian

/-- What follows the sign. -/
def unsignedPart (s : ByteString) : ByteString :=
  if s.head? = some dash ∨ s.head? = some 43 then s.tail else s

/-- The number that some digits stand for, with the sign of `s`. -/
def signedValue (s : ByteString) : ℤ :=
  let n : ℕ := (unsignedPart s).foldl (fun n d => n * 10 + (d.toNat - 48)) 0
  if s.head? = some dash then -n else n

/-- `strconv.Atoi` and `strconv.ParseInt(s, 10, 64)`. -/
def parseInt (s : ByteString) : Option ℤ :=
  if unsignedPart s ≠ [] ∧ (unsignedPart s).all (fun d => 48 ≤ d.toNat ∧ d.toNat ≤ 57) ∧
      Fits 64 (signedValue s) then some (signedValue s)
  else none

theorem fits_of_parseInt {s : ByteString} {n : ℤ} (h : parseInt s = some n) : Fits 64 n := by
  rw [parseInt] at h
  split at h
  · rename_i hok
    cases h
    exact hok.2.2
  · cases h

theorem parseInt_nil : parseInt [] = none := by decide +kernel

theorem foldl_decimal (n : ℕ) : (decimal n).foldl (fun n d => n * 10 + (d.toNat - 48)) 0 = n := by
  rw [decimal, List.foldl_map]
  have hdigits := @Nat.ofDigitChars_toDigits 10 n (by decide) (Nat.le_refl 10)
  rw [Nat.ofDigitChars] at hdigits
  refine (List.foldl_ext _ _ _ fun sofar c hc => ?_).trans hdigits
  have hc := Nat.isDigit_of_mem_toDigits (b := 10) (by decide) (Nat.le_refl 10) hc
  rw [toNat_ofNat_digit hc, Nat.mul_comm]
  rfl

theorem decimal_ne_nil (n : ℕ) : decimal n ≠ [] := by
  rw [decimal, Ne, List.map_eq_nil_iff]
  exact Nat.toDigits_ne_nil

theorem head?_decimal (n : ℕ) :
    (decimal n).head? ≠ some dash ∧ (decimal n).head? ≠ some 43 := by
  constructor
  · intro h
    exact absurd (mem_decimal (List.mem_of_head? h)).1 (by decide)
  · intro h
    exact absurd (mem_decimal (List.mem_of_head? h)).1 (by decide)

/-- `strconv` reads what `%d` prints. -/
theorem parseInt_formatInt {z : ℤ} (h : Fits 64 z) : parseInt (formatInt z) = some z := by
  have hparts : unsignedPart (formatInt z) = decimal z.natAbs ∧
      ((formatInt z).head? = some dash ↔ z < 0) := by
    rw [formatInt, unsignedPart]
    by_cases hneg : z < 0
    · rw [if_pos hneg]
      exact ⟨if_pos (Or.inl rfl), iff_of_true rfl hneg⟩
    · obtain ⟨hdash, hplus⟩ := head?_decimal z.natAbs
      rw [if_neg hneg, List.nil_append]
      exact ⟨if_neg (not_or.mpr ⟨hdash, hplus⟩), iff_of_false hdash hneg⟩
  have hvalue : signedValue (formatInt z) = z := by
    rw [signedValue, hparts.1, foldl_decimal]
    by_cases hneg : z < 0
    · rw [if_pos (hparts.2.mpr hneg)]
      omega
    · rw [if_neg (mt hparts.2.mp hneg)]
      omega
  have hdigits : (decimal z.natAbs).all (fun d => 48 ≤ d.toNat ∧ d.toNat ≤ 57) = true :=
    List.all_eq_true.mpr fun d hd => decide_eq_true (mem_decimal hd)
  rw [parseInt, hparts.1, hvalue, if_pos ⟨decimal_ne_nil _, hdigits, h⟩]

/-! ## The handlers -/

/-- The bucket `consumer_offsets`. -/
abbrev Bucket : Type := GoMap ByteString (List UInt8)

/-- `fmt.Sprintf("%s/%s/%d", groupID, topic, partition)`. -/
def offsetKey (groupID topic : ByteString) (partition : ℤ) : ByteString :=
  groupID ++ slash :: (topic ++ slash :: formatInt partition)

/-- `PutOffset`. -/
def putOffset (bucket : Bucket) (groupID topic : ByteString) (partition offset : ℤ) : Bucket :=
  bucket.insert (offsetKey groupID topic partition) (encode 8 (toUnsigned 64 offset))

/-- `GetOffset`. -/
def getOffset (bucket : Bucket) (groupID topic : ByteString) (partition : ℤ) : ℤ :=
  match bucket.lookup (offsetKey groupID topic partition) with
  | none => 0
  | some data => toSigned 64 (decode data)

/-- The fields of a commit request. The handler does not read `client_id`. -/
structure CommitRequest where
  clientID : ByteString
  groupID : ByteString
  topic : ByteString
  partition : ByteString
  offset : ByteString
deriving DecidableEq

/-- The answer to a commit. -/
structure Committed where
  groupID : ByteString
  topic : ByteString
  partition : ℤ
  offset : ℤ
deriving DecidableEq

/-- `handleCommitOffset`: `opened` is `n.offsetStore != nil`, `err` the error of the
transaction. -/
def handleCommitOffset (bucket : Bucket) (opened : Bool) (req : CommitRequest)
    (err : Option String) : Bucket × Except String Committed :=
  if req.groupID = [] ∨ req.topic = [] ∨ req.partition = [] ∨ req.offset = [] then
    (bucket, .error "group_id, topic, partition, and offset are required")
  else
    match parseInt req.partition with
    | none => (bucket, .error "invalid partition")
    | some partition =>
      match parseInt req.offset with
      | none => (bucket, .error "invalid offset")
      | some offset =>
        let answer := { groupID := req.groupID, topic := req.topic, partition, offset }
        if opened then
          match err with
          | some e => (bucket, .error s!"failed to save offset: {e}")
          | none => (putOffset bucket req.groupID req.topic partition offset, .ok answer)
        else (bucket, .ok answer)

/-- `handleGetOffset`; the offset of the answer. -/
def handleGetOffset (bucket : Bucket) (opened : Bool) (groupID topic partition : ByteString)
    (err : Option String) : Except String ℤ :=
  if groupID = [] ∨ topic = [] ∨ partition = [] then
    .error "group_id, topic, and partition are required"
  else
    match parseInt partition with
    | none => .error "invalid partition"
    | some partition =>
      if opened then
        match err with
        | some e => .error s!"failed to get offset: {e}"
        | none => .ok (getOffset bucket groupID topic partition)
      else .ok 0

/-! ## Runs -/

/-- A commit that was answered `ok`. -/
structure Acked where
  clientID : ByteString
  commit : Committed
  /-- There was a store. -/
  saved : Bool
deriving DecidableEq

structure OffsetServer where
  /-- `./data/nameserver` exists. -/
  directory : Bool
  bucket : Bucket := ∅
  /-- `n.offsetStore != nil`; `none` before the first start. -/
  opened : Option Bool := none
  acked : List Acked := []

inductive OffsetEvent where
  /-- `NewNameServer`. -/
  | start
  | commit (req : CommitRequest) (err : Option String)

namespace OffsetServer

/-- An answer is sent; a commit that was answered `ok` is remembered. -/
def answered (s : OffsetServer) (clientID : ByteString) (saved : Bool) (bucket : Bucket) :
    Except String Committed → OffsetServer
  | .error _ => { s with bucket }
  | .ok commit => { s with bucket, acked := s.acked ++ [{ clientID, commit, saved }] }

def step (s : OffsetServer) : OffsetEvent → Option OffsetServer
  | .start => some { s with opened := some s.directory, directory := true }
  | .commit req err =>
    match s.opened with
    | none => none
    | some opened =>
      let (bucket, res) := handleCommitOffset s.bucket opened req err
      some (s.answered req.clientID opened bucket res)

end OffsetServer

/-! ## What a commit does -/

namespace Committed

def key (c : Committed) : ByteString := offsetKey c.groupID c.topic c.partition

/-- The bytes that are kept for it. -/
def bytes (c : Committed) : List UInt8 := encode 8 (toUnsigned 64 c.offset)

/-- What a well-formed request commits. -/
structure Of (c : Committed) (req : CommitRequest) : Prop where
  groupID : c.groupID = req.groupID
  topic : c.topic = req.topic
  groupID_ne : c.groupID ≠ []
  topic_ne : c.topic ≠ []
  partition : parseInt req.partition = some c.partition
  offset : parseInt req.offset = some c.offset

/-- What is written is read. -/
theorem toSigned_bytes {c : Committed} (h : Fits 64 c.offset) :
    toSigned 64 (decode c.bytes) = c.offset := by
  have hlt : toUnsigned 64 c.offset < 256 ^ 8 := by
    have hpos : (0 : ℤ) < 2 ^ 64 := by decide
    have hnonneg := Int.emod_nonneg c.offset hpos.ne'
    have hbound := Int.emod_lt_of_pos c.offset hpos
    rw [toUnsigned]
    omega
  rw [bytes, decode_encode, Nat.mod_eq_of_lt hlt, toSigned_toUnsigned (by decide) h]

end Committed

/-- **Commit.** An error changes nothing; otherwise the offset is put, if there is a store. -/
theorem handleCommitOffset_cases (bucket : Bucket) (opened : Bool) (req : CommitRequest)
    (err : Option String) :
    (∃ e, handleCommitOffset bucket opened req err = (bucket, .error e)) ∨
      ∃ c : Committed, c.Of req ∧
        handleCommitOffset bucket opened req err =
          (if opened then bucket.insert c.key c.bytes else bucket, .ok c) := by
  unfold handleCommitOffset
  split
  · exact Or.inl ⟨_, rfl⟩
  rename_i hfields
  obtain ⟨hgroup, htopic, _, _⟩ := by simpa only [not_or] using hfields
  cases hpartition : parseInt req.partition with
  | none => exact Or.inl ⟨_, rfl⟩
  | some partition =>
    cases hoffset : parseInt req.offset with
    | none => exact Or.inl ⟨_, rfl⟩
    | some offset =>
      have hof : Committed.Of ⟨req.groupID, req.topic, partition, offset⟩ req :=
        ⟨rfl, rfl, hgroup, htopic, hpartition, hoffset⟩
      cases opened with
      | false => exact Or.inr ⟨_, hof, rfl⟩
      | true =>
        cases err with
        | none => exact Or.inr ⟨_, hof, rfl⟩
        | some e => exact Or.inl ⟨_, rfl⟩

namespace OffsetServer

variable {s t : OffsetServer} {req : CommitRequest} {err : Option String}

/-- A commit event. -/
theorem step_commit (h : s.step (.commit req err) = some t) :
    ∃ opened, s.opened = some opened ∧
      (t = s ∨ ∃ c : Committed, c.Of req ∧
        t = { s with
              bucket := if opened then s.bucket.insert c.key c.bytes else s.bucket
              acked := s.acked ++ [{ clientID := req.clientID, commit := c, saved := opened }] }) := by
  rcases Option.eq_none_or_eq_some s.opened with hopened | ⟨opened, hopened⟩
  · simp only [step, hopened] at h
    cases h
  · simp only [step, hopened] at h
    refine ⟨opened, hopened, ?_⟩
    rcases handleCommitOffset_cases s.bucket opened req err with ⟨e, heq⟩ | ⟨c, hof, heq⟩
    · rw [heq] at h
      exact Or.inl (Option.some.inj h).symm
    · rw [heq] at h
      exact Or.inr ⟨c, hof, (Option.some.inj h).symm⟩

/-- The commits that were saved under a key. -/
def savedUnder (key : ByteString) (a : Acked) : Bool := a.saved ∧ a.commit.key = key

structure BucketInv (s : OffsetServer) : Prop where
  /-- The last commit that was saved under a key is what the bucket has there. -/
  lookup : ∀ key, s.bucket.lookup key =
    (latest (savedUnder key) s.acked).map fun a => a.commit.bytes
  fits : ∀ a ∈ s.acked, Fits 64 a.commit.offset

theorem BucketInv.init (directory : Bool) : BucketInv { directory } where
  lookup _ := rfl
  fits _ h := absurd h List.not_mem_nil

/-- The bucket has the last commit saved under each key after every step, restarts included. -/
theorem BucketInv.step (h : BucketInv s) {ev : OffsetEvent} (hstep : s.step ev = some t) :
    BucketInv t := by
  cases ev with
  | start =>
    cases hstep
    exact ⟨h.lookup, h.fits⟩
  | commit req err =>
    obtain ⟨opened, -, rfl | ⟨c, hof, rfl⟩⟩ := step_commit hstep
    · exact h
    constructor
    · intro key
      dsimp only
      rw [latest_concat]
      cases opened with
      | false => exact h.lookup key
      | true =>
        rw [if_pos rfl, GoMap.lookup_insert_eq]
        by_cases hkey : key = c.key
        · subst hkey
          rw [if_pos rfl, if_pos (by simp [savedUnder])]
          rfl
        · rw [if_neg hkey, if_neg (by simpa [savedUnder] using Ne.symm hkey)]
          exact h.lookup key
    · intro a ha
      rcases List.mem_append.mp ha with ha | ha
      · exact h.fits a ha
      · rw [List.mem_singleton.mp ha]
        exact fits_of_parseInt hof.offset

/-- **Reading** gives the last offset saved under the key. -/
theorem BucketInv.getOffset_eq (h : BucketInv s) (groupID topic : ByteString) (partition : ℤ) :
    getOffset s.bucket groupID topic partition =
      ((latest (savedUnder (offsetKey groupID topic partition)) s.acked).map
        fun a => a.commit.offset).getD 0 := by
  rw [getOffset, h.lookup]
  cases hlast : latest (savedUnder (offsetKey groupID topic partition)) s.acked with
  | none => rfl
  | some a => exact Committed.toSigned_bytes (h.fits a (mem_of_latest hlast).1)

end OffsetServer

/-! ## Names and keys -/

/-- Apart from the two ends there is one slash in `groupID/topic`, the one in between. -/
def Unambiguous (groupID topic : ByteString) : Prop :=
  ∀ i < (groupID ++ slash :: topic).length, 0 < i → i + 1 < (groupID ++ slash :: topic).length →
    (groupID ++ slash :: topic)[i]? = some slash → i = groupID.length

instance (groupID topic : ByteString) : Decidable (Unambiguous groupID topic) :=
  inferInstanceAs (Decidable (∀ i < (groupID ++ slash :: topic).length, _))

/-- The partition can be read from a key, and both names together. -/
theorem offsetKey_eq_iff {groupID topic groupID' topic' : ByteString} {partition partition' : ℤ} :
    offsetKey groupID topic partition = offsetKey groupID' topic' partition' ↔
      groupID ++ slash :: topic = groupID' ++ slash :: topic' ∧ partition = partition' := by
  have hassoc : ∀ (g t : ByteString) (p : ℤ),
      offsetKey g t p = (g ++ slash :: t) ++ slash :: formatInt p := by
    intro g t p
    rw [offsetKey, List.append_assoc, List.cons_append]
  rw [hassoc, hassoc]
  constructor
  · intro h
    obtain ⟨hnames, hpartition⟩ :=
      split_last (slash_notMem_formatInt partition) (slash_notMem_formatInt partition') h
    exact ⟨hnames, formatInt_inj hpartition⟩
  · rintro ⟨hnames, rfl⟩
    rw [hnames]

/-- No other names, and no other partition, have the key. -/
theorem Unambiguous.eq_of_key_eq {groupID topic groupID' topic' : ByteString}
    {partition partition' : ℤ} (h : Unambiguous groupID topic) (hgroup : groupID' ≠ [])
    (htopic : topic' ≠ [])
    (hkey : offsetKey groupID topic partition = offsetKey groupID' topic' partition') :
    groupID = groupID' ∧ topic = topic' ∧ partition = partition' := by
  obtain ⟨hnames, hpartition⟩ := offsetKey_eq_iff.mp hkey
  have hgpos := List.length_pos_iff.mpr hgroup
  have htpos := List.length_pos_iff.mpr htopic
  have hlen : (groupID ++ slash :: topic).length = groupID'.length + (topic'.length + 1) := by
    rw [hnames, List.length_append, List.length_cons]
  -- the slash behind the other group id is the one in between
  have hslash : groupID'.length = groupID.length := by
    refine h _ (by omega) hgpos (by omega) ?_
    rw [hnames, List.getElem?_append_right le_rfl, Nat.sub_self]
    rfl
  obtain ⟨hg, ht⟩ := List.append_inj hnames hslash.symm
  exact ⟨hg, (List.cons.inj ht).2, hpartition⟩

namespace OffsetServer

variable {s t : OffsetServer} {ev : OffsetEvent} {directory : Bool}

/-- Commits come when there is a store, and for names that no other names have the key of. -/
def Kept (s : OffsetServer) (ev : OffsetEvent) (_ : OffsetServer) : Prop :=
  match ev with
  | .commit req _ => s.opened = some true ∧ Unambiguous req.groupID req.topic
  | .start => True

instance (s : OffsetServer) (ev : OffsetEvent) (t : OffsetServer) : Decidable (s.Kept ev t) :=
  match ev with
  | .commit req _ =>
    inferInstanceAs (Decidable (s.opened = some true ∧ Unambiguous req.groupID req.topic))
  | .start => inferInstanceAs (Decidable True)

structure KeptInv (s : OffsetServer) : Prop extends BucketInv s where
  saved : ∀ a ∈ s.acked, a.saved = true ∧ Unambiguous a.commit.groupID a.commit.topic
  /-- Without a store nothing was committed yet. -/
  no_store : s.opened = some false → s.acked = []
  no_directory : s.directory = false → s.opened = none ∧ s.acked = []

theorem KeptInv.init (directory : Bool) : KeptInv { directory } where
  toBucketInv := BucketInv.init directory
  saved _ h := absurd h List.not_mem_nil
  no_store _ := rfl
  no_directory _ := ⟨rfl, rfl⟩

/-- With a store and such names every acknowledged commit is saved. -/
theorem KeptInv.step (h : KeptInv s) (hkept : s.Kept ev t) (hstep : s.step ev = some t) :
    KeptInv t := by
  have hbucket := h.toBucketInv.step hstep
  cases ev with
  | start =>
    cases hstep
    refine ⟨hbucket, h.saved, fun hfalse => ?_, fun hfalse => ?_⟩
    · exact (h.no_directory (Option.some.inj hfalse)).2
    · cases hfalse
  | commit req err =>
    obtain ⟨htrue, hnames⟩ : s.opened = some true ∧ Unambiguous req.groupID req.topic := hkept
    obtain ⟨opened, hopened, rfl | ⟨c, hof, rfl⟩⟩ := step_commit hstep
    · exact h
    obtain rfl : opened = true := Option.some.inj (hopened.symm.trans htrue)
    refine ⟨hbucket, fun a ha => ?_, fun hfalse => ?_, fun hfalse => ?_⟩
    · rcases List.mem_append.mp ha with ha | ha
      · exact h.saved a ha
      · rw [List.mem_singleton.mp ha]
        exact ⟨rfl, hof.groupID ▸ hof.topic ▸ hnames⟩
    · exact absurd (hopened.symm.trans hfalse) (by decide)
    · exact absurd (hopened.symm.trans (h.no_directory hfalse).1) (by decide)

/-- The commits for a group, a topic and a partition. -/
def commitsFor (groupID topic : ByteString) (partition : ℤ) (a : Acked) : Bool :=
  a.commit.groupID = groupID ∧ a.commit.topic = topic ∧ a.commit.partition = partition

/-- **Offsets are kept.** If commits come when there is a store, and for names that no other
names have the key of, then whenever the process is up `handleGetOffset` returns the offset of
the last commit for the group, the topic and the partition that was answered `ok`, and 0 if
there was none. -/
theorem offsets_kept (hrun : Run step Kept { directory } s) {opened : Bool}
    (hup : s.opened = some opened) {groupID topic partitionStr : ByteString} {partition : ℤ}
    (hgroup : groupID ≠ []) (htopic : topic ≠ [])
    (hpartition : parseInt partitionStr = some partition) :
    handleGetOffset s.bucket opened groupID topic partitionStr none =
      .ok (((latest (commitsFor groupID topic partition) s.acked).map
        fun a => a.commit.offset).getD 0) := by
  have h : KeptInv s := by
    refine hrun.invariant (KeptInv.init directory) ?_
    exact fun _ _ _ h hkept hstep => h.step hkept hstep
  have hnonempty : partitionStr ≠ [] := by
    rintro rfl
    rw [parseInt_nil] at hpartition
    cases hpartition
  have hread : handleGetOffset s.bucket opened groupID topic partitionStr none =
      .ok (if opened then getOffset s.bucket groupID topic partition else 0) := by
    rw [handleGetOffset, if_neg (by simp [hgroup, htopic, hnonempty]), hpartition]
    cases opened <;> rfl
  rw [hread]
  cases opened with
  | false =>
    -- before there is a store nothing was committed
    rw [h.no_store hup]
    rfl
  | true =>
    rw [if_pos rfl, h.getOffset_eq]
    congr 3
    -- what was saved under the key was committed for the names
    refine latest_congr fun a ha => ?_
    obtain ⟨hsaved, hnames⟩ := h.saved a ha
    rw [savedUnder, commitsFor, hsaved, decide_eq_decide]
    constructor
    · rintro ⟨-, hkey⟩
      exact hnames.eq_of_key_eq hgroup htopic hkey
    · rintro ⟨rfl, rfl, rfl⟩
      exact ⟨rfl, rfl⟩

/-- The group `g` commits 5 and 7 for partition 0 of `t`, after the second start. -/
def commitsAfterRestart : List OffsetEvent :=
  [.start, .start, .commit ⟨[97], [103], [116], [48], [53]⟩ none,
    .commit ⟨[97], [103], [116], [48], [55]⟩ none]

theorem offsets_kept_restart :
    ∃ s, Run step Kept { directory := false } s ∧
      handleGetOffset s.bucket true [103] [116] [48] none = .ok 7 := by
  obtain ⟨s, hrun, hup, hlast⟩ : ∃ s, Run step Kept { directory := false } s ∧
      s.opened = some true ∧
      ((latest (commitsFor [103] [116] 0) s.acked).map fun a => a.commit.offset).getD 0 = 7 :=
    exists_run_of_execWith commitsAfterRestart (by decide +kernel)
  have hget := offsets_kept hrun hup (by decide : ([103] : ByteString) ≠ [])
    (by decide : ([116] : ByteString) ≠ []) (by decide +kernel : parseInt [48] = some 0)
  exact ⟨s, hrun, hget.trans (congrArg Except.ok hlast)⟩

/-- After the first start a commit is answered `ok` and lost. Later the group `a` finds for the
topic `b/c` what the group `a/b` has committed for the topic `c`. -/
theorem offsets_lost_or_mixed_up :
    (∃ s, Run step (fun _ _ _ => True) { directory := false } s ∧ s.opened = some false ∧
      s.acked = [⟨[97], ⟨[103], [116], 0, 7⟩, false⟩] ∧
      handleGetOffset s.bucket false [103] [116] [48] none = .ok 0) ∧
    ∃ s, Run step (fun _ _ _ => True) { directory := true } s ∧ s.opened = some true ∧
      s.acked = [⟨[97], ⟨[97, 47, 98], [99], 0, 7⟩, true⟩] ∧
      handleGetOffset s.bucket true [97] [98, 47, 99] [48] none = .ok 7 :=
  ⟨exists_run_of_execWith [.start, .commit ⟨[97], [103], [116], [48], [55]⟩ none]
      (by decide +kernel),
    exists_run_of_execWith [.start, .commit ⟨[97], [97, 47, 98], [99], [48], [55]⟩ none]
      (by decide +kernel)⟩

end OffsetServer

end DistributedMQ.NameServer
