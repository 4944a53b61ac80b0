import Chromatic.MemoryScan
import Chromatic.ProcessMaps

/-!
# The texts of patterns

What `parsePattern` accepts, against the grammar it is meant for, and the patterns that are
written for it: any list of positions, and the `bytes` that the disassembler prints.

§1 the grammar · §2 tokens · §3 what is accepted · §4 writing a pattern · §5 reading it back ·
§6 the disassembler's bytes · §7 scanning for an instruction.
-/

namespace Chromatic

open Foundation NativeFunction MemoryScan
open ProcessMaps (scanSign scanSign_digits)

namespace ScanPatterns

/-! ## §1  The grammar -/

def IsWildcard (token : List Char) : Prop := token = ['?', '?'] ∨ token = ['?']

instance (token : List Char) : Decidable (IsWildcard token) :=
  inferInstanceAs (Decidable (_ ∨ _))

/-- One or two hexadecimal digits. -/
def digitsByte : List Char → Option Byte
  | [c] => (hexDigit c).map (BitVec.ofNat 8)
  | [c, d] => do return BitVec.ofNat 8 (16 * (← hexDigit c) + (← hexDigit d))
  | _ => none

/-- A byte, with `0x` in front or without. -/
def byteText : List Char → Option Byte
  | '0' :: 'x' :: digits => digitsByte digits
  | digits => digitsByte digits

/-- What a token stands for: `none` is no token of the grammar, `some none` a wildcard. -/
def tokenPosition (token : List Char) : Option (Option Byte) :=
  if IsWildcard token then some none else (byteText token).map some

/-- The positions of a text, if all its tokens are of the grammar. -/
def grammar (pattern : String) : Option (List (Option Byte)) :=
  (words pattern.toList).mapM tokenPosition

/-! ## §2  Tokens -/

/-- The number at the start of a token, whatever follows it. -/
def leadingNumber (token : List Char) : Option ℤ :=
  (readHexWord (scanSign token).2).map fun n : ℕ => if (scanSign token).1 then -n else n

/-- `stoi` throws: there is no number at the start, or it is no `int`. -/
def Refused (token : List Char) : Prop :=
  ¬ IsWildcard token ∧ ∀ v, leadingNumber token = some v → ¬ (-2 ^ 31 ≤ v ∧ v < 2 ^ 31)

section Tokens

variable {token : List Char} {c d : Char} {b : Byte}

theorem stoi16_signed : stoi16 token =
    match readHexWord (scanSign (token.dropWhile isSpace)).2 with
    | none => .error .invalidArgument
    | some n =>
        let v : ℤ := if (scanSign (token.dropWhile isSpace)).1 then -n else n
        if -2 ^ 31 ≤ v ∧ v < 2 ^ 31 then .ok v else .error .outOfRange := rfl

theorem stoi16_eq (hblank : ∀ c ∈ token, isSpace c = false) : stoi16 token =
    match leadingNumber token with
    | none => .error .invalidArgument
    | some v => if -2 ^ 31 ≤ v ∧ v < 2 ^ 31 then .ok v else .error .outOfRange := by
  have hdrop : token.dropWhile isSpace = token := by
    cases token with
    | nil => rfl
    | cons c cs => exact List.dropWhile_cons_of_neg (by simp [hblank c])
  rw [stoi16_signed, hdrop, leadingNumber]
  cases readHexWord (scanSign token).2 <;> rfl

theorem digitsByte_some {ds : List Char} (h : digitsByte ds = some b) :
    ds ≠ [] ∧ (∀ c ∈ ds, (hexDigit c).isSome) ∧ readHex 0 ds = b.toNat := by
  unfold digitsByte at h
  split at h
  · rename_i c
    obtain ⟨v, hv, rfl⟩ := Option.map_eq_some_iff.mp h
    have := hexDigit_lt hv
    refine ⟨by simp, by simp [hv], ?_⟩
    simp only [readHex, hv, BitVec.toNat_ofNat]
    omega
  · rename_i c d
    cases hc : hexDigit c with
    | none => simp [hc] at h
    | some v =>
        cases hd : hexDigit d with
        | none => simp [hc, hd] at h
        | some w =>
            have := hexDigit_lt hc
            have := hexDigit_lt hd
            simp only [hc, hd, Option.pure_def, Option.bind_eq_bind, Option.bind_some,
              Option.some.injEq] at h
            subst h
            refine ⟨by simp, by simp [hc, hd], ?_⟩
            simp only [readHex, hc, hd, BitVec.toNat_ofNat]
            omega
  · cases h

/-- A token of the grammar is the number that it shows. -/
theorem leadingNumber_of_byteText (h : byteText token = some b) :
    leadingNumber token = some (b.toNat : ℤ) := by
  unfold byteText at h
  split at h
  · rename_i digits
    obtain ⟨hne, hdigits, hvalue⟩ := digitsByte_some h
    rw [leadingNumber, scanSign_digits (by decide), readHexWord_prefixed hne hdigits, hvalue]
    rfl
  · obtain ⟨hne, hdigits, hvalue⟩ := digitsByte_some h
    cases token with
    | nil => exact absurd rfl hne
    | cons c cs =>
        rw [leadingNumber, scanSign_digits (hdigits c List.mem_cons_self),
          readHexWord_digits hne hdigits, hvalue]
        rfl

end Tokens

/-! ## §3  What is accepted -/

/-- The position that the loop makes of a token. -/
def readPosition (token : List Char) : Option Byte :=
  if IsWildcard token then none else (leadingNumber token).map (BitVec.ofInt 8)

section Accepted

variable {tokens : List (List Char)} {token : List Char} {p : ParsedPattern} {cs : List Char}

/-- No token has a blank in it. -/
theorem words_nonblank (cs : List Char) : ∀ token ∈ words cs, ∀ c ∈ token, isSpace c = false := by
  fun_induction words cs with
  | case1 => simp
  | case2 c cs hspace ih => exact ih
  | case3 c hspace => simpa using hspace
  | case4 c hspace d rest hd ih => exact List.forall_mem_cons.mpr ⟨by simpa using hspace, ih⟩
  | case5 c hspace d rest hd hnil ih => simpa using hspace
  | case6 c hspace d rest hd w ws hwords ih =>
      rw [hwords] at ih
      obtain ⟨hw, hws⟩ := List.forall_mem_cons.mp ih
      exact List.forall_mem_cons.mpr ⟨List.forall_mem_cons.mpr ⟨by simpa using hspace, hw⟩, hws⟩

theorem positions_push (p : ParsedPattern) (byte : Byte) (fixed : Bool) :
    (p.push byte fixed).positions = p.positions ++ [if fixed then some byte else none] := by
  unfold ParsedPattern.positions ParsedPattern.push
  rw [List.zipWith_append p.lengths.symm]
  rfl

theorem stoi16_of_refused (hblank : ∀ c ∈ token, isSpace c = false) (h : Refused token) :
    ∃ e, stoi16 token = .error e := by
  rw [stoi16_eq hblank]
  cases hnumber : leadingNumber token with
  | none => exact ⟨_, rfl⟩
  | some v => exact ⟨_, if_neg (h.2 v hnumber)⟩

theorem stoi16_of_not_refused (hblank : ∀ c ∈ token, isSpace c = false)
    (hwild : ¬ IsWildcard token) (h : ¬ Refused token) :
    ∃ v, stoi16 token = .ok v ∧ readPosition token = some (BitVec.ofInt 8 v) := by
  unfold Refused at h
  push Not at h
  obtain ⟨v, hnumber, hrange⟩ := h hwild
  refine ⟨v, ?_, ?_⟩
  · rw [stoi16_eq hblank, hnumber]
    exact if_pos hrange
  · rw [readPosition, if_neg hwild, hnumber]
    rfl

theorem pushTokens_wildcard (h : IsWildcard token) :
    pushTokens (token :: tokens) p = pushTokens tokens (p.push 0 false) := if_pos h

theorem pushTokens_number (h : ¬ IsWildcard token) :
    pushTokens (token :: tokens) p =
      (stoi16 token).bind fun v => pushTokens tokens (p.push (BitVec.ofInt 8 v) true) := if_neg h

/-- A token that `stoi` refuses stops the loop. -/
theorem pushTokens_error (hblank : ∀ token ∈ tokens, ∀ c ∈ token, isSpace c = false)
    (h : ∃ token ∈ tokens, Refused token) : ∃ e, pushTokens tokens p = .error e := by
  induction tokens generalizing p with
  | nil => simp at h
  | cons token tokens ih =>
      obtain ⟨hnow, hlater⟩ := List.forall_mem_cons.mp hblank
      rw [List.exists_mem_cons_iff] at h
      by_cases hwild : IsWildcard token
      · rw [pushTokens_wildcard hwild]
        exact ih hlater (h.resolve_left fun hrefused => hrefused.1 hwild)
      · rw [pushTokens_number hwild]
        by_cases hrefused : Refused token
        · obtain ⟨e, he⟩ := stoi16_of_refused hnow hrefused
          exact ⟨e, by rw [he, Except.bind]⟩
        · obtain ⟨v, hv, -⟩ := stoi16_of_not_refused hnow hwild hrefused
          rw [hv, Except.bind]
          exact ih hlater (h.resolve_left hrefused)

/-- Without such a token every token becomes a position. -/
theorem pushTokens_ok (hblank : ∀ token ∈ tokens, ∀ c ∈ token, isSpace c = false)
    (h : ∀ token ∈ tokens, ¬ Refused token) :
    ∃ pat, pushTokens tokens p = .ok pat ∧
      pat.positions = p.positions ++ tokens.map readPosition := by
  induction tokens generalizing p with
  | nil => exact ⟨p, rfl, (List.append_nil _).symm⟩
  | cons token tokens ih =>
      obtain ⟨hnow, hlater⟩ := List.forall_mem_cons.mp hblank
      obtain ⟨hfirst, hrest⟩ := List.forall_mem_cons.mp h
      rw [List.map_cons]
      by_cases hwild : IsWildcard token
      · obtain ⟨pat, hok, hpositions⟩ := @ih (p.push 0 false) hlater hrest
        refine ⟨pat, by rw [pushTokens_wildcard hwild, hok], ?_⟩
        rw [hpositions, positions_push, readPosition, if_pos hwild]
        simp
      · obtain ⟨v, hv, hposition⟩ := stoi16_of_not_refused hnow hwild hfirst
        obtain ⟨pat, hok, hpositions⟩ := @ih (p.push (BitVec.ofInt 8 v) true) hlater hrest
        refine ⟨pat, by rw [pushTokens_number hwild, hv, Except.bind, hok], ?_⟩
        rw [hpositions, positions_push, hposition]
        simp

/-- `parsePattern` does what the grammar says of the text. -/
def Parses (pattern : String) : Prop :=
  match grammar pattern with
  | some positions => ∃ pat, parsePattern pattern = .ok pat ∧ pat.positions = positions
  | none => ∃ e, parsePattern pattern = .error e

theorem parsePattern_error {pattern : String} (h : ∃ token ∈ words pattern.toList, Refused token) :
    ∃ e, parsePattern pattern = .error e := pushTokens_error (words_nonblank _) h

theorem parsePattern_ok {pattern : String}
    (h : ∀ token ∈ words pattern.toList, ¬ Refused token) :
    ∃ pat, parsePattern pattern = .ok pat ∧
      pat.positions = (words pattern.toList).map readPosition :=
  pushTokens_ok (words_nonblank _) h

/-- A token of the grammar is not refused, and read as what it stands for. -/
theorem readPosition_of_grammar {position : Option Byte} (h : tokenPosition token = some position) :
    ¬ Refused token ∧ readPosition token = position := by
  unfold tokenPosition at h
  unfold readPosition
  by_cases hwild : IsWildcard token
  · rw [if_pos hwild] at h ⊢
    exact ⟨fun hrefused => hrefused.1 hwild, Option.some.inj h⟩
  · rw [if_neg hwild] at h ⊢
    obtain ⟨b, hb, rfl⟩ := Option.map_eq_some_iff.mp h
    have hnumber := leadingNumber_of_byteText hb
    refine ⟨fun hrefused => hrefused.2 _ hnumber ?_, ?_⟩
    · have := b.isLt
      omega
    · rw [hnumber]
      simp

theorem grammar_eq_some {pattern : String} {positions : List (Option Byte)}
    (h : grammar pattern = some positions) :
    (∀ token ∈ words pattern.toList, ¬ Refused token) ∧
      (words pattern.toList).map readPosition = positions := by
  unfold grammar at h
  generalize words pattern.toList = tokens at h ⊢
  induction tokens generalizing positions with
  | nil => simpa using h
  | cons token tokens ih =>
      rw [List.mapM_cons] at h
      simp only [Option.bind_eq_bind, Option.bind_eq_some_iff, Option.pure_def,
        Option.some.injEq] at h
      obtain ⟨position, hnow, rest, hrest, rfl⟩ := h
      obtain ⟨hfirst, hread⟩ := readPosition_of_grammar hnow
      obtain ⟨hothers, hmap⟩ := ih hrest
      exact ⟨List.forall_mem_cons.mpr ⟨hfirst, hothers⟩, by rw [List.map_cons, hread, hmap]⟩

theorem grammar_isSome_iff {pattern : String} :
    (grammar pattern).isSome ↔ ∀ token ∈ words pattern.toList, (tokenPosition token).isSome := by
  unfold grammar
  induction words pattern.toList with
  | nil => simp
  | cons token tokens ih =>
      rw [List.forall_mem_cons, ← ih, List.mapM_cons]
      cases tokenPosition token <;> cases tokens.mapM tokenPosition <;> simp

/-- **The pattern parser accepts its grammar.** It does on a text exactly when every token is of
the grammar, or `stoi` refuses one. -/
theorem parses_iff (pattern : String) : Parses pattern ↔
    (∀ token ∈ words pattern.toList, (tokenPosition token).isSome) ∨
      ∃ token ∈ words pattern.toList, Refused token := by
  rw [← grammar_isSome_iff]
  unfold Parses
  cases hgrammar : grammar pattern with
  | some positions =>
      obtain ⟨haccepted, hpositions⟩ := grammar_eq_some hgrammar
      obtain ⟨pat, hok, hread⟩ := parsePattern_ok haccepted
      exact iff_of_true ⟨pat, hok, hread.trans hpositions⟩ (.inl rfl)
  | none =>
      simp only [Option.isSome_none, Bool.false_eq_true, false_or]
      constructor
      · rintro ⟨e, he⟩
        by_contra hnone
        push Not at hnone
        obtain ⟨pat, hok, -⟩ := parsePattern_ok hnone
        cases hok.symm.trans he
      · exact parsePattern_error

/-- `stoi` stops at the question mark. -/
theorem halfWildcard_accepted :
    grammar "a?" = none ∧ (∃ pat, parsePattern "a?" = .ok pat ∧ pat.positions = [some 0x0a]) ∧
      ¬ Parses "a?" := by
  have hread : ∃ pat, parsePattern "a?" = .ok pat ∧ pat.positions = [some 0x0a] := ⟨_, rfl, rfl⟩
  refine ⟨by decide, hread, ?_⟩
  rintro ⟨e, he⟩
  obtain ⟨pat, hok, -⟩ := hread
  cases hok.symm.trans he

end Accepted

/-! ## §4  Writing a pattern -/

/-- Two hexadecimal digits of either case, or two question marks. -/
def Writes : Option Byte → List Char → Prop
  | none, token => token = ['?', '?']
  | some b, token => ∃ c d, token = [c, d] ∧ hexDigit c = some (b.toNat / 16) ∧
      hexDigit d = some (b.toNat % 16)

def Blank (cs : List Char) : Prop := ∀ c ∈ cs, isSpace c = true

/-- The tokens of the positions with blanks between them, and in front and behind if any. -/
inductive Written : List (Option Byte) → List Char → Prop where
  | nil {trail : List Char} (htrail : Blank trail) : Written [] trail
  | cons {position : Option Byte} {positions : List (Option Byte)} {lead token rest : List Char}
      (hlead : Blank lead) (htoken : Writes position token) (hrest : Written positions rest)
      (hapart : ∀ c, rest.head? = some c → isSpace c = true) :
      Written (position :: positions) (lead ++ (token ++ rest))

/-! ## §5  Reading it back -/

section Written

variable {position : Option Byte} {positions : List (Option Byte)} {token cs rest : List Char}

theorem words_blank (h : Blank cs) : words (cs ++ rest) = words rest := by
  induction cs with
  | nil => rfl
  | cons c cs ih =>
      obtain ⟨hc, hcs⟩ := List.forall_mem_cons.mp h
      rw [List.cons_append, words.eq_def]
      simp only [hc, if_true]
      exact ih hcs

/-- A token ends at a blank or at the end of the text. -/
theorem words_token (hne : token ≠ []) (htoken : ∀ c ∈ token, isSpace c = false)
    (hapart : ∀ c, rest.head? = some c → isSpace c = true) :
    words (token ++ rest) = token :: words rest := by
  induction token with
  | nil => exact absurd rfl hne
  | cons c token ih =>
      obtain ⟨hc, hcs⟩ := List.forall_mem_cons.mp htoken
      rw [List.cons_append, words.eq_def]
      simp only [hc, Bool.false_eq_true, if_false]
      cases token with
      | nil =>
          cases rest with
          | nil => rfl
          | cons d rest => simp only [List.nil_append, hapart d rfl, if_true]
      | cons d token =>
          have hd := hcs d List.mem_cons_self
          have hlater := ih (by simp) hcs
          rw [List.cons_append] at hlater ⊢
          simp only [hd, Bool.false_eq_true, if_false, hlater]

theorem isSpace_of_hexDigit {c : Char} {v : ℕ} (h : hexDigit c = some v) : isSpace c = false :=
  ProcessMaps.isSpace_hexDigit (by simp [h])

theorem Writes.nonblank (h : Writes position token) :
    token ≠ [] ∧ ∀ c ∈ token, isSpace c = false := by
  cases position with
  | none =>
      obtain rfl : token = ['?', '?'] := h
      have hmark : isSpace '?' = false := by decide
      simp [hmark]
  | some b =>
      obtain ⟨c, d, rfl, hc, hd⟩ := h
      simp [isSpace_of_hexDigit hc, isSpace_of_hexDigit hd]

/-- What is written for a position is a token of the grammar that stands for it. -/
theorem Writes.tokenPosition (h : Writes position token) :
    tokenPosition token = some position := by
  cases position with
  | none =>
      obtain rfl : token = ['?', '?'] := h
      rfl
  | some b =>
      obtain ⟨c, d, rfl, hc, hd⟩ := h
      have hwild : ¬ IsWildcard [c, d] := by
        rintro (hsame | hsame)
        · obtain ⟨rfl, -⟩ := List.cons.inj hsame
          cases hc
        · cases hsame
      have hprefix : byteText [c, d] = digitsByte [c, d] := by
        unfold byteText
        split
        · rename_i heq
          obtain ⟨-, hx⟩ := List.cons.inj heq
          obtain ⟨rfl, -⟩ := List.cons.inj hx
          cases hd
        · rfl
      have hvalue : 16 * (b.toNat / 16) + b.toNat % 16 = b.toNat := Nat.div_add_mod _ _
      rw [ScanPatterns.tokenPosition, if_neg hwild, hprefix]
      simp [digitsByte, hc, hd, hvalue]

/-- The tokens of a written text are those that were written. -/
theorem Written.grammar (h : Written positions cs) :
    ScanPatterns.grammar (String.ofList cs) = some positions := by
  unfold ScanPatterns.grammar
  rw [String.toList_ofList]
  induction h with
  | @nil trail htrail =>
      rw [← List.append_nil trail, words_blank htrail]
      rfl
  | cons hlead htoken hrest hapart ih =>
      obtain ⟨hne, hnonblank⟩ := htoken.nonblank
      rw [words_blank hlead, words_token hne hnonblank hapart, List.mapM_cons,
        htoken.tokenPosition, ih]
      rfl

/-- What is written is read back. -/
theorem Written.parsePattern (h : Written positions cs) :
    ∃ pat, MemoryScan.parsePattern (String.ofList cs) = .ok pat ∧ pat.positions = positions := by
  obtain ⟨haccepted, hread⟩ := grammar_eq_some h.grammar
  obtain ⟨pat, hok, hpositions⟩ := parsePattern_ok haccepted
  exact ⟨pat, hok, hpositions.trans hread⟩

end Written

/-! ## §6  The disassembler's bytes -/

def hexchars : List Char := "0123456789abcdef".toList

def hexPair (b : Byte) : List Char :=
  [hexchars.getD (b >>> 4 &&& 0xF).toNat ' ', hexchars.getD (b &&& 0xF).toNat ' ']

/-- One turn of the loop. -/
def appendByte (result : List Char) (i : ℕ) (b : Byte) : List Char :=
  (if i > 0 then result ++ [' '] else result) ++ hexPair b

def bytesToHex (data : List Byte) : String :=
  String.ofList (data.zipIdx.foldl (fun result e => appendByte result e.2 e.1) [])

section Bytes

variable {data : List Byte}

theorem hexDigit_hexchars : ∀ n < 16, hexDigit (hexchars.getD n ' ') = some n := by decide

theorem toNat_low (b : Byte) : (b &&& 0xF).toNat = b.toNat % 16 := by
  rw [BitVec.toNat_and]
  exact Nat.and_two_pow_sub_one_eq_mod b.toNat 4

theorem toNat_high (b : Byte) : (b >>> 4 &&& 0xF).toNat = b.toNat / 16 := by
  have := b.isLt
  rw [toNat_low, BitVec.toNat_ushiftRight, Nat.shiftRight_eq_div_pow]
  omega

theorem writes_hexPair (b : Byte) : Writes (some b) (hexPair b) := by
  have := b.isLt
  refine ⟨_, _, rfl, ?_, ?_⟩
  · rw [toNat_high, hexDigit_hexchars _ (by omega)]
  · rw [toNat_low, hexDigit_hexchars _ (by omega)]

theorem foldl_appendByte (data : List Byte) {k : ℕ} (hk : 0 < k) (result : List Char) :
    (data.zipIdx k).foldl (fun result e => appendByte result e.2 e.1) result =
      result ++ data.flatMap fun b => ' ' :: hexPair b := by
  induction data generalizing k result with
  | nil => exact (List.append_nil result).symm
  | cons b data ih =>
      rw [List.zipIdx_cons, List.foldl_cons, ih (Nat.succ_pos k), appendByte, if_pos hk]
      simp

/-- Behind a byte come a blank and a byte, or nothing. -/
theorem head_flatMap {c : Char} (h : (data.flatMap fun b => ' ' :: hexPair b).head? = some c) :
    isSpace c = true := by
  cases data with
  | nil => cases h
  | cons b data =>
      obtain rfl := Option.some.inj h
      rfl

theorem written_tail (data : List Byte) :
    Written (data.map some) (data.flatMap fun b => ' ' :: hexPair b) := by
  have hblank : Blank [' '] := List.forall_mem_singleton.mpr rfl
  induction data with
  | nil => exact .nil (List.forall_mem_nil _)
  | cons b data ih => exact .cons hblank (writes_hexPair b) ih fun _ => head_flatMap

theorem written_bytesToHex (data : List Byte) :
    Written (data.map some) (bytesToHex data).toList := by
  have hnone : Blank [] := List.forall_mem_nil _
  rw [bytesToHex, String.toList_ofList]
  cases data with
  | nil => exact .nil hnone
  | cons b data =>
      rw [List.zipIdx_cons, List.foldl_cons, foldl_appendByte data (Nat.succ_pos _)]
      exact .cons hnone (writes_hexPair b) (written_tail data) fun _ => head_flatMap

end Bytes

/-! ## §7  Scanning for an instruction -/

structure CsDetail where
  groups : List ℕ
  regsRead : List ℕ
  regsWrite : List ℕ
deriving DecidableEq, Repr

/-- A decoded instruction; its array holds 24 bytes, and none is empty. -/
structure CsInsn where
  address : Addr
  bytes : List Byte
  mnemonic : String
  opStr : String
  detail : Option CsDetail
  nonempty : bytes ≠ []
  fits : bytes.length ≤ 24

structure InstructionInfo where
  address : Addr
  size : ℤ
  mnemonic : String
  opStr : String
  bytes : String
  groups : List ℤ
  regsRead : List ℤ
  regsWrite : List ℤ
deriving DecidableEq, Repr

def insnToInfo (insn : CsInsn) : InstructionInfo where
  address := insn.address
  size := insn.bytes.length
  mnemonic := insn.mnemonic
  opStr := insn.opStr
  bytes := bytesToHex insn.bytes
  groups := (insn.detail.map fun d => d.groups.map (↑)).getD []
  regsRead := (insn.detail.map fun d => d.regsRead.map (↑)).getD []
  regsWrite := (insn.detail.map fun d => d.regsWrite.map (↑)).getD []

/-- `size` becomes a `size_t`. -/
def scanMemory (memory : ℕ → Byte) (address : ℕ) (size : ℤ) (pattern : String) :
    Except CallError (List ScanMatch × List ℕ) := do
  let pat ← parsePattern pattern
  return bmhScan memory address (BitVec.ofInt 64 size).toNat pat

/-- The bytes are in memory at `a`. -/
def BytesAt (memory : ℕ → Byte) (bytes : List Byte) (a : ℕ) : Prop :=
  (List.range bytes.length).map (fun j => memory (a + j)) = bytes

instance (memory : ℕ → Byte) (bytes : List Byte) (a : ℕ) : Decidable (BytesAt memory bytes a) :=
  inferInstanceAs (Decidable (_ = _))

section Instructions

variable {memory : ℕ → Byte} {bytes : List Byte} {pat : ParsedPattern} {address a : ℕ}

theorem size_of_positions (h : pat.positions = bytes.map some) : pat.size = bytes.length := by
  rw [← length_positions, h, List.length_map]

theorem occursAt_iff_bytesAt (h : pat.positions = bytes.map some) :
    OccursAt memory pat a ↔ BytesAt memory bytes a := by
  have hmatches : OccursAt memory pat a ↔
      ∀ j b, (bytes.map some)[j]? = some (some b) → memory (a + j) = b := by
    rw [← h]
    exact matchesAt_iff.symm
  rw [hmatches, BytesAt]
  constructor
  · intro hoccurs
    refine List.ext_getElem (by simp) fun j _ hj => ?_
    rw [List.getElem_map, List.getElem_range]
    exact hoccurs j _ (by simp [hj])
  · intro hbytes j b hb
    rw [List.getElem?_map, Option.map_eq_some_iff] at hb
    obtain ⟨b', hget, hb'⟩ := hb
    obtain rfl := Option.some.inj hb'
    obtain ⟨hj, rfl⟩ := List.getElem?_eq_some_iff.mp hget
    have hsame := congrArg (·[j]?) hbytes
    simpa [hj] using hsame

/-- **Patterns round-trip through text.** Every list of positions, written with any blanks, is
read back; so are the bytes that the disassembler prints, and a scan for those of an instruction
finds its occurrences in the range, each once, in ascending order, with its size. -/
theorem patterns_roundTrip :
    (∀ positions cs, Written positions cs →
      ∃ pat, parsePattern (String.ofList cs) = .ok pat ∧ pat.positions = positions) ∧
    (∀ bytes, ∃ pat, parsePattern (bytesToHex bytes) = .ok pat ∧
      pat.positions = bytes.map some) ∧
    ∀ (memory : ℕ → Byte) (address : ℕ) (size : ℤ) (insn : CsInsn), ∃ found reads,
      scanMemory memory address size (insnToInfo insn).bytes = .ok (found, reads) ∧
      found = ((List.range ((BitVec.ofInt 64 size).toNat + 1 - insn.bytes.length)).filter
        fun i => BytesAt memory insn.bytes (address + i)).map fun i =>
          ⟨address + i, insn.bytes.length⟩ := by
  have hbytes : ∀ bytes, ∃ pat, parsePattern (bytesToHex bytes) = .ok pat ∧
      pat.positions = bytes.map some := by
    intro bytes
    have hread := (written_bytesToHex bytes).parsePattern
    rwa [String.ofList_toList] at hread
  refine ⟨fun _ _ h => h.parsePattern, hbytes, fun memory address size insn => ?_⟩
  obtain ⟨pat, hok, hpositions⟩ := hbytes insn.bytes
  have hscan : scanMemory memory address size (insnToInfo insn).bytes =
      .ok (bmhScan memory address (BitVec.ofInt 64 size).toNat pat) := by
    rw [scanMemory, insnToInfo, hok]
    rfl
  refine ⟨(bmhScan memory address (BitVec.ofInt 64 size).toNat pat).1, _, hscan, ?_⟩
  have hsize := size_of_positions hpositions
  have hpos : 0 < insn.bytes.length := List.length_pos_iff.mpr insn.nonempty
  have hint : (BitVec.ofNat 32 pat.size).toInt = insn.bytes.length := by
    have := insn.fits
    rw [hsize]
    exact toInt_ofNat_eq_iff.mpr (by omega)
  rw [bmhScan_eq, hint, naiveScan, if_neg (by omega), List.map_map, hsize]
  congr 1
  exact List.filter_congr fun i _ => decide_eq_decide.mpr (occursAt_iff_bytesAt hpositions)

end Instructions

section Concrete

/-- Two bytes and a wildcard, in either case and with more blanks than are needed. -/
def mixed : List (Option Byte) := [some 0x0F, none, some 0xA1]

def mixedText : List Char := ['0', 'F', ' ', '?', '?', ' ', ' ', 'a', '1', '\n']

theorem written_mixed : Written mixed mixedText := by
  have hbreak : Written [] ['\n'] := .nil (by simp [Blank, isSpace])
  have hlast : Written [some 0xA1] [' ', ' ', 'a', '1', '\n'] :=
    @Written.cons (some 0xA1) [] [' ', ' '] ['a', '1'] ['\n'] (by simp [Blank, isSpace])
      ⟨'a', '1', rfl, rfl, rfl⟩ hbreak (by simp [isSpace])
  have hwild : Written [none, some 0xA1] [' ', '?', '?', ' ', ' ', 'a', '1', '\n'] :=
    @Written.cons none _ [' '] ['?', '?'] _ (by simp [Blank, isSpace]) rfl hlast
      (by simp [isSpace])
  exact @Written.cons (some 0x0F) _ [] ['0', 'F'] _ (List.forall_mem_nil _)
    ⟨'0', 'F', rfl, rfl, rfl⟩ hwild (by simp [isSpace])

theorem mixed_roundTrip :
    ∃ pat, parsePattern (String.ofList mixedText) = .ok pat ∧ pat.positions = mixed :=
  patterns_roundTrip.1 mixed _ written_mixed

end Concrete

end ScanPatterns

end Chromatic
