import Chromatic.Foundation.StreamDecoder

/-!
# The embedded config

`parseEmbeddedConfig`. The data behind the header may be compressed. liblzma is any decoder that
keeps to the contract of `lzma_code`; the loop asks it for one chunk after the other.

§1 the header and the data · §2 decompression · §3 parseEmbeddedConfig · §4 where the loop stops ·
§5 what goes on.
-/

namespace Chromatic

open Foundation

namespace EmbeddedConfig

/-! ## §1  The header and the data -/

/-- The enumeration has two names, but reading may give any number. -/
inductive Mode where
  | embedJs
  | watchPath
  | other (mode : BitVec 32)
deriving DecidableEq, Repr

structure EmbeddedConfigData where
  mode : Mode
  jsFilepath : Option String
  jsContent : Option String
  watchPath : Option String
deriving DecidableEq, Repr

structure Header where
  magic1 : BitVec 32
  magic2 : BitVec 32
  version : BitVec 32
  dataSize : BitVec 32
  dataOffset : BitVec 32
  dataXz : Bool
deriving DecidableEq, Repr

/-! ## §2  Decompression -/

/-- The answers of `lzma_code` besides `LZMA_OK` and `LZMA_STREAM_END`. -/
inductive LzmaError where
  | noCheck
  | unsupportedCheck
  | getCheck
  | memError
  | memlimitError
  | formatError
  | optionsError
  | dataError
  | bufError
  | progError
deriving DecidableEq, Repr

def chunkSize : ℕ := 64 * 1024

def maxSize : ℕ := 300 * 1024 * 1024

section Decompress

variable {δ : Type} (lzma : StreamDecoder δ LzmaError UInt8)

/-- One turn of the loop: `none` goes on. -/
def turn (p : Stage δ UInt8) : Option (Except String (List UInt8)) :=
  let r := lzma.answer chunkSize p
  if p.output.length + r.output.length > maxSize then
    some (.error "Decompressed data too large (> 300MB)")
  else if r.status = .finished ∨ (p.rest.drop r.consumed).length = 0 then
    some (.ok (p.output ++ r.output))
  else if r.status ≠ .more then
    some (.error "LZMA decompression failed")
  else
    none

/-- Nothing decoded yet. -/
def start (state : δ) (input : List UInt8) : Stage δ UInt8 := ⟨state, input, []⟩

/-- At most so many turns. -/
def decompress : ℕ → Stage δ UInt8 → Option (Except String (List UInt8))
  | 0, _ => none
  | turns + 1, p =>
    match turn lzma p with
    | some result => some result
    | none => decompress turns (lzma.advance chunkSize p)

end Decompress

/-! ## §3  parseEmbeddedConfig -/

/-- The loaded library from the struct on. `initial` is the new decoder, if there is one, and
`readJson` is `rfl::json::read`. -/
structure Library (δ : Type) where
  header : Header
  bytes : ℕ → UInt8
  initial : Option δ
  lzma : StreamDecoder δ LzmaError UInt8
  readJson : List UInt8 → Except String EmbeddedConfigData

namespace Library

variable {δ : Type} (l : Library δ)

def data : List UInt8 :=
  (List.range l.header.dataSize.toNat).map fun i => l.bytes (l.header.dataOffset.toNat + i)

def parseJson (data : List UInt8) : Except String EmbeddedConfigData :=
  match l.readJson data with
  | .ok config => .ok config
  | .error e => .error ("Failed to parse embedded config JSON: " ++ e)

def parseEmbeddedConfig (turns : ℕ) : Option (Except String EmbeddedConfigData) :=
  if l.header.magic1 ≠ 0x0d000721 ∨ l.header.magic2 ≠ 0x1f8a4e2b ∨ l.header.version ≠ 1 then
    some (.error "Invalid embedded config: bad magic or version")
  else if l.header.dataSize.toInt ≤ 0 ∨ l.header.dataOffset.toInt ≤ 0 then
    some (.error "Invalid embedded config: no data (was the binary patched by fripack?)")
  else if l.header.dataXz then
    match l.initial with
    | none => some (.error "Failed to initialize LZMA decoder")
    | some state =>
      match decompress l.lzma turns (start state l.data) with
      | none => none
      | some (.error e) => some (.error e)
      | some (.ok data) => some (l.parseJson data)
  else
    some (l.parseJson l.data)

end Library

/-! ## §4  Where the loop stops -/

section Stops

variable {δ : Type} (lzma : StreamDecoder δ LzmaError UInt8) (p : Stage δ UInt8)

/-- The `n`-th call does not end the loop. -/
structure Goes (n : ℕ) : Prop where
  status : (lzma.answer chunkSize (lzma.stage chunkSize p n)).status = .more
  rest : (lzma.stage chunkSize p (n + 1)).rest ≠ []
  size : (lzma.stage chunkSize p (n + 1)).output.length ≤ maxSize

/-- The loop makes calls `0` to `n` and ends with the result. -/
def Stops (n : ℕ) (result : Except String (List UInt8)) : Prop :=
  decompress lzma n p = none ∧ decompress lzma (n + 1) p = some result

variable {lzma p}

theorem turn_eq : turn lzma p =
    if maxSize < (lzma.advance chunkSize p).output.length then
      some (.error "Decompressed data too large (> 300MB)")
    else if (lzma.answer chunkSize p).status = .finished ∨
        (lzma.advance chunkSize p).rest = [] then
      some (.ok (lzma.advance chunkSize p).output)
    else if (lzma.answer chunkSize p).status ≠ .more then
      some (.error "LZMA decompression failed")
    else
      none := by
  simp only [turn, (lzma.advance_length chunkSize p).2, gt_iff_lt, List.length_eq_zero_iff]
  rfl

theorem turn_eq_none_iff (n : ℕ) :
    turn lzma (lzma.stage chunkSize p n) = none ↔ Goes lzma p n := by
  rw [turn_eq, ← lzma.stage_succ]
  constructor
  · intro h
    split_ifs at h with hsize hend hstatus
    exact ⟨not_not.1 hstatus, fun hrest => hend (.inr hrest), Nat.not_lt.1 hsize⟩
  · rintro ⟨hstatus, hrest, hsize⟩
    simp [hstatus, hrest, Nat.not_lt.2 hsize]

/-- Where the loop goes on with data. -/
theorem turn_eq_ok_iff (n : ℕ) (data : List UInt8) :
    turn lzma (lzma.stage chunkSize p n) = some (.ok data) ↔
      (lzma.stage chunkSize p (n + 1)).output.length ≤ maxSize ∧
      ((lzma.answer chunkSize (lzma.stage chunkSize p n)).status = .finished ∨
        (lzma.stage chunkSize p (n + 1)).rest = []) ∧
      (lzma.stage chunkSize p (n + 1)).output = data := by
  rw [turn_eq, ← lzma.stage_succ]
  split_ifs with hsize hend hstatus
  · simp [Nat.not_le.2 hsize]
  · simp [hend, Nat.not_lt.1 hsize]
  · simp [hend]
  · simp [hend]

theorem decompress_succ (turns : ℕ) : decompress lzma (turns + 1) p =
    (turn lzma p).elim (decompress lzma turns (lzma.advance chunkSize p)) some := by
  rw [decompress]
  cases turn lzma p <;> rfl

/-- The loop stops in the first turn that does not go on. -/
theorem stops_iff (n : ℕ) (result : Except String (List UInt8)) :
    Stops lzma p n result ↔
      (∀ i < n, Goes lzma p i) ∧ turn lzma (lzma.stage chunkSize p n) = some result := by
  simp only [← turn_eq_none_iff]
  rw [Stops]
  induction n generalizing p with
  | zero =>
    simp only [decompress, lzma.stage_zero]
    cases turn lzma p <;> simp
  | succ n ih =>
    have hlater := @ih (lzma.advance chunkSize p)
    simp only [← lzma.stage_succ'] at hlater
    rw [Nat.forall_lt_succ_left]
    rcases hturn : turn lzma p with _ | r
    · rw [decompress_succ, decompress_succ, hturn]
      simpa [hturn] using hlater
    · rw [decompress_succ, decompress_succ, hturn]
      simp [hturn]

theorem decompress_add_one {turns : ℕ} {result : Except String (List UInt8)}
    (h : decompress lzma turns p = some result) : decompress lzma (turns + 1) p = some result := by
  induction turns generalizing p with
  | zero => cases h
  | succ turns ih =>
    rw [decompress_succ] at h ⊢
    cases hturn : turn lzma p with
    | none =>
      rw [hturn] at h
      exact ih h
    | some r => rwa [hturn] at h

/-- A result is that of the turn where the loop stops. -/
theorem stops_of_decompress {turns : ℕ} {result : Except String (List UInt8)}
    (h : decompress lzma turns p = some result) : ∃ n, Stops lzma p n result := by
  induction turns with
  | zero => cases h
  | succ turns ih =>
    cases hbefore : decompress lzma turns p with
    | none => exact ⟨turns, hbefore, h⟩
    | some r =>
      obtain rfl : r = result := Option.some.inj ((decompress_add_one hbefore).symm.trans h)
      exact ih hbefore

theorem exists_stops (lzma : StreamDecoder δ LzmaError UInt8) (p : Stage δ UInt8) :
    ∃ n result, Stops lzma p n result := by
  by_contra hnone
  have hgoes : ∀ n, Goes lzma p n := by
    intro n
    induction n using Nat.strongRecOn with
    | ind n ih =>
      rw [← turn_eq_none_iff]
      by_contra hturn
      obtain ⟨result, hresult⟩ := Option.ne_none_iff_exists'.1 hturn
      exact hnone ⟨n, result, (stops_iff n result).2 ⟨ih, hresult⟩⟩
  obtain ⟨n, hn⟩ := lzma.exists_stop chunkSize p maxSize
  exact hn ⟨(hgoes n).status, (hgoes n).size⟩

end Stops

/-! ## §5  What goes on -/

section Ends

variable {δ : Type} (lzma : StreamDecoder δ LzmaError UInt8) (state : δ) (input : List UInt8)

/-- The loop terminates, and goes on with all that was decoded, at the end of the stream. -/
structure RejectsTruncated : Prop where
  terminates : ∃ n result, Stops lzma (start state input) n result
  whole : ∀ n data, Stops lzma (start state input) n (.ok data) →
    data = lzma.outputs chunkSize (start state input) (n + 1) ∧ data.length ≤ maxSize
  ended : ∀ n data, Stops lzma (start state input) n (.ok data) →
    ∃ i ≤ n, (lzma.answer chunkSize (lzma.stage chunkSize (start state input) i)).status = .finished

/-- The call which uses up the input within the limit answers with the end of the stream. -/
def EndsWithInput : Prop :=
  ∀ n, (∀ i < n, Goes lzma (start state input) i) →
    (lzma.stage chunkSize (start state input) (n + 1)).rest = [] →
    (lzma.stage chunkSize (start state input) (n + 1)).output.length ≤ maxSize →
    (lzma.answer chunkSize (lzma.stage chunkSize (start state input) n)).status = .finished

variable {lzma state input}

theorem stops_ok {n : ℕ} {data : List UInt8}
    (h : Stops lzma (start state input) n (.ok data)) :
    data = lzma.outputs chunkSize (start state input) (n + 1) ∧ data.length ≤ maxSize := by
  obtain ⟨hsize, -, rfl⟩ := (turn_eq_ok_iff n data).1 ((stops_iff n _).1 h).2
  exact ⟨by rw [lzma.stage_output]; rfl, hsize⟩

/-- Input that ends too early goes on exactly when it ends in a call that reports neither more
output than allowed nor the end of the stream. -/
theorem rejectsTruncated_iff (lzma : StreamDecoder δ LzmaError UInt8) (state : δ)
    (input : List UInt8) :
    RejectsTruncated lzma state input ↔ EndsWithInput lzma state input := by
  constructor
  · intro h n hgoes hrest hsize
    have hstops := (stops_iff n _).2 ⟨hgoes, (turn_eq_ok_iff n _).2 ⟨hsize, .inr hrest, rfl⟩⟩
    obtain ⟨i, hi, hfinished⟩ := h.ended n _ hstops
    rcases Nat.lt_or_eq_of_le hi with hlt | rfl
    · exact absurd ((hgoes i hlt).status.symm.trans hfinished) nofun
    · exact hfinished
  · intro h
    refine ⟨exists_stops _ _, fun n data => stops_ok, fun n data hstops => ⟨n, Nat.le_refl n, ?_⟩⟩
    obtain ⟨hgoes, hturn⟩ := (stops_iff n _).1 hstops
    obtain ⟨hsize, hfinished | hrest, -⟩ := (turn_eq_ok_iff n data).1 hturn
    · exact hfinished
    · exact h n hgoes hrest hsize

end Ends

section Parse

variable {δ : Type} {l : Library δ}

/-- Enough turns give a result. -/
theorem parseEmbeddedConfig_ends (l : Library δ) :
    ∃ turns result, l.parseEmbeddedConfig turns = some result := by
  cases hinitial : l.initial with
  | none =>
    refine ⟨0, ?_⟩
    simp only [Library.parseEmbeddedConfig, hinitial]
    split_ifs <;> exact ⟨_, rfl⟩
  | some state =>
    obtain ⟨n, result, -, hresult⟩ := exists_stops l.lzma (start state l.data)
    refine ⟨n + 1, ?_⟩
    simp only [Library.parseEmbeddedConfig, hinitial, hresult]
    split_ifs
    · exact ⟨_, rfl⟩
    · exact ⟨_, rfl⟩
    · cases result <;> exact ⟨_, rfl⟩
    · exact ⟨_, rfl⟩

/-- A config from compressed data is read from what the loop went on with. -/
theorem parseEmbeddedConfig_xz (hxz : l.header.dataXz = true) {turns : ℕ}
    {config : EmbeddedConfigData} (h : l.parseEmbeddedConfig turns = some (.ok config)) :
    ∃ state n data, l.initial = some state ∧ Stops l.lzma (start state l.data) n (.ok data) ∧
      l.readJson data = .ok config := by
  rw [Library.parseEmbeddedConfig] at h
  split_ifs at h
  · cases h
  · cases h
  split at h
  · cases h
  · rename_i state hinitial
    split at h
    · cases h
    · cases h
    · rename_i data hdata
      obtain ⟨n, hstops⟩ := stops_of_decompress hdata
      refine ⟨state, n, data, hinitial, hstops, ?_⟩
      have hjson := Option.some.inj h
      rw [Library.parseJson] at hjson
      split at hjson
      · rename_i c hread
        exact hread.trans (congrArg _ (Except.ok.inj hjson))
      · cases hjson

end Parse

section Concrete

/-- A decoder in the first bytes of a stream: it takes what there is and waits for more. -/
def headerDecoder : StreamDecoder Bool LzmaError UInt8 where
  call waited input _ :=
    if input = [] then ⟨if waited then .failed .bufError else .more, 0, [], true⟩
    else ⟨.more, input.length, [], false⟩
  consumed_le waited input room := by
    split <;> simp
  output_le waited input room := by
    split <;> simp
  not_idle_twice waited input room input' room' := by
    rintro ⟨-, hconsumed, -⟩ ⟨hstatus, hconsumed', -⟩
    by_cases hinput' : input' = []
    · by_cases hinput : input = []
      · simp [hinput, hinput'] at hstatus
      · simp [hinput] at hconsumed
    · simp [hinput'] at hconsumed'

/-- The magic bytes of an xz stream, and nothing after them. -/
def cutStream : List UInt8 := [0xfd, 0x37, 0x7a, 0x58, 0x5a, 0x00]

/-- A stream cut in its header goes on as empty data. -/
theorem cutStream_goesOn :
    Stops headerDecoder (start false cutStream) 0 (.ok []) ∧
      ¬ RejectsTruncated headerDecoder false cutStream := by
  have hstops : Stops headerDecoder (start false cutStream) 0 (.ok []) := ⟨rfl, by decide⟩
  refine ⟨hstops, fun h => ?_⟩
  obtain ⟨i, hi, hfinished⟩ := h.ended 0 [] hstops
  obtain rfl := Nat.le_zero.1 hi
  revert hfinished
  decide

end Concrete

end EmbeddedConfig

end Chromatic
