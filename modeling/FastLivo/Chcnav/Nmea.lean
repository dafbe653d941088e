import FastLivo.Chcnav.Stream

/-!
# NMEA sentences

One call of `hc__msg_parser_scan` on a well-formed sentence, however it is cut into reads. The
scanner compares two characters on the stack with the supported talkers by `strcmp`; the sentence
becomes a token exactly when the byte behind the two is zero.
-/

namespace FastLivo.Chcnav

open Scanner (bodyChar supportedHead)

/-! ## One scan -/

/-- The loop of `hc__msg_parser_scan`: the token it returns, `none` while the device is silent. One
call compares each of the two arrays once at most. -/
def Node.scan (stack : StackBytes) : ℕ → Node → Option (Token × Node)
  | 0, _ => none
  | fuel + 1, n =>
    if n.pointer = n.buffer.length then
      match n.reads with
      | [] => none
      | read :: reads =>
        Node.scan stack fuel
          { n with buffer := parserReadHandler hcProtocolMaxLen read, pointer := 0, reads := reads }
    else do
      let c ← n.buffer[n.pointer]?
      let (scanner, move) := n.decoder.scanner.scanChar stack c
      let n : Node :=
        { n with
          decoder := { n.decoder with scanner := scanner }
          pointer := n.pointer + move.toNat }
      if scanner.token.type = .none then Node.scan stack fuel n else some (scanner.token, n)

/-- A scan goes on from the other node, whatever number of rounds follow. -/
def Scans (stack : StackBytes) (n n' : Node) : Prop :=
  ∃ k, ∀ fuel, n.scan stack (fuel + k) = n'.scan stack fuel

section Rounds

variable {stack : StackBytes} {n n' n'' : Node} {x y : ParserState} {k : ℕ} {v : List UInt8}
  {c : UInt8} {bytes rest : List UInt8}

theorem Scans.refl (stack : StackBytes) (n : Node) : Scans stack n n := ⟨0, fun _ => rfl⟩

theorem Scans.trans (h : Scans stack n n') (h' : Scans stack n' n'') : Scans stack n n'' := by
  obtain ⟨k, hk⟩ := h
  obtain ⟨k', hk'⟩ := h'
  refine ⟨k' + k, fun fuel => ?_⟩
  rw [← Nat.add_assoc, hk, hk']

/-- A scan that has returned returns the same with more rounds. -/
theorem scan_mono {r : Token × Node} {fuel : ℕ} (h : n.scan stack fuel = some r) (j : ℕ) :
    n.scan stack (fuel + j) = some r := by
  induction fuel generalizing n with
  | zero => cases h
  | succ fuel ih =>
    rw [Nat.add_right_comm]
    rw [Node.scan] at h ⊢
    split at h
    · rename_i hlast
      rw [if_pos hlast]
      cases hreads : n.reads with
      | nil => simp [hreads] at h
      | cons read reads =>
        simp only [hreads] at h ⊢
        exact ih h
    · rename_i hlast
      rw [if_neg hlast]
      cases hc : n.buffer[n.pointer]? with
      | none => simp [hc] at h
      | some c =>
        simp only [hc, Option.bind_eq_bind, Option.bind_some] at h ⊢
        split at h
        · rename_i htype
          rw [if_pos htype]
          exact ih h
        · rename_i htype
          rw [if_neg htype]
          exact h

/-- Two scans of one node return the same. -/
theorem scan_unique {r r' : Token × Node} {fuel fuel' : ℕ} (h : n.scan stack fuel = some r)
    (h' : n.scan stack fuel' = some r') : r = r' := by
  have hmore := scan_mono h fuel'
  rw [Nat.add_comm, scan_mono h' fuel] at hmore
  exact (Option.some.inj hmore).symm

theorem Scans.returns (h : Scans stack n n') {r : Token × Node} {fuel : ℕ}
    (hr : n'.scan stack fuel = some r) : ∃ fuel, n.scan stack fuel = some r := by
  obtain ⟨k, hk⟩ := h
  exact ⟨fuel + k, (hk fuel).trans hr⟩

/-- The node goes through the same rounds and then deals with the token. -/
theorem runs_of_scan {t : Token} {fuel : ℕ} (h : n.scan stack fuel = some (t, n')) :
    ∃ i, Runs (fun _ => stack) i n { n' with decoder := n'.decoder.handleToken.enterScan } := by
  induction fuel generalizing n with
  | zero => cases h
  | succ fuel ih =>
    rw [Node.scan] at h
    split at h
    · rename_i hlast
      cases hreads : n.reads with
      | nil => simp [hreads] at h
      | cons read reads =>
        simp only [hreads] at h
        obtain ⟨i, hrun⟩ := ih h
        refine ⟨i + 1, Runs.trans (.step ?_) hrun⟩
        rw [Node.step, if_pos hlast, hreads]
    · rename_i hlast
      cases hc : n.buffer[n.pointer]? with
      | none => simp [hc] at h
      | some c =>
        simp only [hc, Option.bind_eq_bind, Option.bind_some] at h
        split at h
        · rename_i htype
          obtain ⟨i, hrun⟩ := ih h
          refine ⟨i + 1, Runs.trans (.step ?_) hrun⟩
          rw [Node.step, if_neg hlast, hc]
          simp only [Option.bind_eq_bind, Option.bind_some, Decoder.feed, if_pos htype]
          rfl
        · rename_i htype
          obtain ⟨-, rfl⟩ := Prod.mk.inj (Option.some.inj h)
          refine ⟨1, .step ?_⟩
          rw [Node.step, if_neg hlast, hc]
          simp only [Option.bind_eq_bind, Option.bind_some, Decoder.feed, if_neg htype]
          rfl

/-! ## Rounds -/

/-- The scanner inside a scan, with so much still to be parsed. -/
structure Node.At (n : Node) (s : Scanner) (bytes : List UInt8) : Prop where
  ready : n.Ready
  scanner : n.decoder.scanner = s
  unread : n.unread = bytes

/-- The next character is brought into the buffer. -/
theorem Node.At.refill (stack : StackBytes) {s : Scanner} (h : n.At s (c :: bytes)) :
    ∃ n', Scans stack n n' ∧ n'.At s (c :: bytes) ∧ n'.pointer < n'.buffer.length := by
  by_cases hlast : n.pointer = n.buffer.length
  · obtain ⟨decoder, buffer, pointer, reads⟩ := n
    obtain rfl : pointer = buffer.length := hlast
    have hunread := h.unread
    cases reads with
    | nil => simp [Node.unread] at hunread
    | cons read reads =>
      obtain ⟨⟨hne, hfit⟩, hreads⟩ := List.forall_mem_cons.mp h.ready.reads
      have hpos : 0 < read.length := List.length_pos_iff.mpr hne
      have haccept : parserReadHandler hcProtocolMaxLen read = read := if_pos ⟨hfit, hpos⟩
      refine ⟨⟨decoder, read, 0, reads⟩, ⟨1, fun fuel => ?_⟩,
        ⟨⟨Nat.zero_le _, hreads⟩, h.scanner, ?_⟩, hpos⟩
      · rw [Node.scan, if_pos rfl]
        simp only [haccept]
      · rw [← hunread]
        simp [Node.unread]
  · exact ⟨n, .refl stack n, h, Nat.lt_of_le_of_ne h.ready.pointer hlast⟩

/-- The character at the pointer is shown to the scanner. -/
theorem Node.At.show (stack : StackBytes) {s : Scanner} (h : n.At s (c :: bytes))
    (hin : n.pointer < n.buffer.length) :
    ∃ n', n'.At (s.scanChar stack c).1 (if (s.scanChar stack c).2 then bytes else c :: bytes) ∧
      ∀ fuel, n.scan stack (fuel + 1) =
        if (s.scanChar stack c).1.token.type = .none then n'.scan stack fuel
        else some ((s.scanChar stack c).1.token, n') := by
  obtain ⟨hready, hscanner, hunread⟩ := h
  rw [Node.unread, List.drop_eq_getElem_cons hin, List.cons_append] at hunread
  obtain ⟨hc, hbytes⟩ := List.cons.inj hunread
  refine ⟨{ n with
      decoder := { n.decoder with scanner := (s.scanChar stack c).1 }
      pointer := n.pointer + (s.scanChar stack c).2.toNat }, ⟨⟨?_, hready.reads⟩, rfl, ?_⟩,
    fun fuel => ?_⟩
  · have hmove := Bool.toNat_le (s.scanChar stack c).2
    show n.pointer + _ ≤ n.buffer.length
    omega
  · cases (s.scanChar stack c).2 with
    | true => exact hbytes
    | false => rw [Node.unread, Bool.toNat_false, Nat.add_zero, List.drop_eq_getElem_cons hin, hc,
        List.cons_append, hbytes, if_neg Bool.false_ne_true]
  · rw [Node.scan, if_neg (Nat.ne_of_lt hin), List.getElem?_eq_getElem hin, hc, ← hscanner]
    rfl

/-- A round that goes on. -/
theorem Node.At.goes {s s' : Scanner} {move : Bool} (h : n.At s (c :: bytes))
    (hchar : s.scanChar stack c = (s', move)) (htype : s'.token.type = .none) :
    ∃ n', Scans stack n n' ∧ n'.At s' (if move then bytes else c :: bytes) := by
  obtain ⟨n₁, hrefill, hat, hin⟩ := h.refill stack
  obtain ⟨n', hat', hstep⟩ := hat.show stack hin
  rw [hchar] at hat' hstep
  refine ⟨n', hrefill.trans ⟨1, fun fuel => ?_⟩, hat'⟩
  rw [hstep, if_pos htype]

/-- A round that returns. -/
theorem Node.At.returns {s s' : Scanner} {move : Bool} (h : n.At s (c :: bytes))
    (hchar : s.scanChar stack c = (s', move)) (htype : s'.token.type ≠ .none) :
    ∃ fuel n', n.scan stack fuel = some (s'.token, n') ∧
      n'.At s' (if move then bytes else c :: bytes) := by
  obtain ⟨n₁, hrefill, hat, hin⟩ := h.refill stack
  obtain ⟨n', hat', hstep⟩ := hat.show stack hin
  rw [hchar] at hat' hstep
  have hone : n₁.scan stack 1 = some (s'.token, n') := by rw [hstep 0, if_neg htype]
  obtain ⟨fuel, hfuel⟩ := hrefill.returns hone
  exact ⟨fuel, n', hfuel, hat'⟩

/-! ## Inside a sentence -/

/-- The scanner inside a scan, as a state, a counter and the token so far. -/
abbrev inside (state : ParserState) (specifiedLen : ℕ) (value : List UInt8) : Scanner :=
  ⟨none, state, specifiedLen, ⟨.none, value⟩⟩

/-- A character that is taken. -/
theorem Node.At.take {k' : ℕ} (h : n.At (inside x k v) (c :: bytes))
    (hhandler : (inside x k v).handler stack c = (inside y k' v, true)) (hlen : v.length < 1023) :
    ∃ n', Scans stack n n' ∧ n'.At (inside y k' (v ++ [c])) bytes :=
  h.goes (scanChar_quiet hhandler hlen) rfl

/-- A character that is looked at again in another state. -/
theorem Node.At.hold {k' : ℕ} (h : n.At (inside x k v) (c :: bytes))
    (hhandler : (inside x k v).handler stack c = (inside y k' v, false)) (hlen : v.length < 1023) :
    ∃ n', Scans stack n n' ∧ n'.At (inside y k' v) (c :: bytes) := by
  obtain ⟨n', hscans, hat⟩ := h.goes (scanChar_quiet hhandler hlen) rfl
  rw [if_neg Bool.false_ne_true, List.append_nil] at hat
  exact ⟨n', hscans, hat⟩

/-- Characters that the state takes one by one; `left` is the counter before the last so many. -/
theorem Node.At.takes (stack : StackBytes) (P : UInt8 → Prop) (left : ℕ → ℕ)
    (hhandler : ∀ b m v, P b →
      (inside x (left (m + 1)) v).handler stack b = (inside x (left m) v, true))
    {bs : List UInt8} (hP : ∀ b ∈ bs, P b) (h : n.At (inside x (left bs.length) v) (bs ++ rest))
    (hlen : v.length + bs.length ≤ 1023) :
    ∃ n', Scans stack n n' ∧ n'.At (inside x (left 0) (v ++ bs)) rest := by
  induction bs generalizing n v with
  | nil => exact ⟨n, .refl stack n, by rwa [List.append_nil]⟩
  | cons b bs ih =>
    obtain ⟨hb, hbs⟩ := List.forall_mem_cons.mp hP
    rw [List.length_cons] at hlen
    obtain ⟨n₁, hscans, hat⟩ := h.take (hhandler b bs.length v hb) (by omega)
    obtain ⟨n', hscans', hat'⟩ := ih hbs hat (by
      rw [List.length_append, List.length_singleton]
      omega)
    rw [List.append_assoc] at hat'
    exact ⟨n', hscans.trans hscans', hat'⟩

theorem s18_takes (b : UInt8) (m : ℕ) (v : List UInt8) :
    (inside .s18 (m + 1) v).handler stack b = (inside .s18 m v, true) := rfl

theorem s21_takes {b : UInt8} (k : ℕ) (v : List UInt8) (hb : bodyChar b = true) :
    (inside .s21 k v).handler stack b = (inside .s21 k v, true) := by
  have hstar : ¬0x2a = b := by
    rintro rfl
    exact absurd hb (by decide)
  simp only [Scanner.handler, Scanner.dealS21, if_neg hstar, if_pos hb]

/-- The characters behind the star but the last. -/
theorem s22_takes (b : UInt8) (m : ℕ) (v : List UInt8) :
    (inside .s22 (m + 1 + 1) v).handler stack b = (inside .s22 (m + 1) v, true) := rfl

end Rounds

/-! ## Sentences -/

/-- The talkers of `hc__msg_deal_S19`: "GP", "GN", "BD" and "GT". -/
def talkers : List (UInt8 × UInt8) := [(0x47, 0x50), (0x47, 0x4e), (0x42, 0x44), (0x47, 0x54)]

/-- The value of a hexadecimal digit. -/
def hexDigit (c : UInt8) : Option ℕ :=
  if 0x30 ≤ c ∧ c ≤ 0x39 then some (c.toNat - 0x30)
  else if 0x41 ≤ c ∧ c ≤ 0x46 then some (c.toNat - 0x37)
  else if 0x61 ≤ c ∧ c ≤ 0x66 then some (c.toNat - 0x57)
  else none

/-- A sentence that fits a token: talker, type, body and the digits of its checksum. -/
structure NmeaSentence where
  talker : UInt8 × UInt8
  type : List UInt8
  body : List UInt8
  digits : UInt8 × UInt8
  supported : talker ∈ talkers
  typeLength : type.length = 3 ∨ type.length = 4
  typeChars : ∀ c ∈ type, c ≠ 0x2c
  bodyChars : ∀ c ∈ body, bodyChar c = true
  hexDigits : (hexDigit digits.1).isSome = true ∧ (hexDigit digits.2).isSome = true
  fits : type.length + body.length + 9 ≤ 1023

namespace NmeaSentence

variable (s : NmeaSentence)

/-- Dollar sign, talker and three characters of the type, read before the talker is looked at. -/
def head : List UInt8 := 0x24 :: s.talker.1 :: s.talker.2 :: s.type.take 3

/-- The star, the checksum and the line end. -/
def ending : List UInt8 := [0x2a, s.digits.1, s.digits.2, 0x0d, 0x0a]

def bytes : List UInt8 :=
  0x24 :: s.talker.1 :: s.talker.2 :: (s.type ++ 0x2c :: (s.body ++ s.ending))

theorem length_bytes : s.bytes.length ≤ 1023 := by
  have hfits := s.fits
  simp only [bytes, ending, List.length_cons, List.length_append, List.length_nil]
  omega

theorem length_head : s.head.length = 6 := by
  have htype := s.typeLength
  simp only [head, List.length_cons, List.length_take]
  omega

theorem bytes_eq : s.bytes = s.head ++ (s.type.drop 3 ++ 0x2c :: (s.body ++ s.ending)) := by
  rw [bytes, head, List.cons_append, List.cons_append, List.cons_append, ← List.append_assoc,
    List.take_append_drop]

/-- `strcmp` finds a talker when a zero stands behind the two characters. -/
theorem supportedHead_talker (after : UInt8) :
    supportedHead s.talker after = decide (after = 0) := by
  have hsupported := s.supported
  simp only [talkers, List.mem_cons, List.not_mem_nil, or_false] at hsupported
  rcases hsupported with h | h | h | h <;> rw [h] <;> exact Bool.beq_eq_decide_eq after 0

end NmeaSentence

section Sentence

variable {stack : StackBytes} {n : Node} {k : ℕ} {rest : List UInt8} (s : NmeaSentence)

/-- The scanner up to the talker. -/
theorem Node.At.readHead (stack : StackBytes) (h : n.At (inside .s0 k []) (s.bytes ++ rest)) :
    ∃ n', Scans stack n n' ∧
      n'.At (inside .s19 0 s.head) (s.type.drop 3 ++ 0x2c :: (s.body ++ s.ending) ++ rest) := by
  have htype := s.typeLength
  rw [s.bytes_eq, NmeaSentence.head, List.cons_append, List.cons_append] at h
  have hdollar : (inside .s0 k []).handler stack 0x24 = (inside .s18 5 [], true) := rfl
  obtain ⟨n₁, hscans₁, h₁⟩ := h.take hdollar (Nat.zero_lt_succ _)
  have hfive : (s.talker.1 :: s.talker.2 :: s.type.take 3).length = 5 := by
    simp only [List.length_cons, List.length_take]
    omega
  rw [← hfive, List.append_assoc] at h₁
  obtain ⟨n₂, hscans₂, h₂⟩ := h₁.takes stack (fun _ => True) id
    (fun b m v _ => s18_takes b m v) (fun _ _ => trivial) (by
      rw [hfive]
      decide)
  have hhead : [] ++ [0x24] ++ (s.talker.1 :: s.talker.2 :: s.type.take 3) = s.head := rfl
  rw [hhead] at h₂
  obtain ⟨c, cs, hcs⟩ : ∃ c cs,
      s.type.drop 3 ++ 0x2c :: (s.body ++ s.ending) ++ rest = c :: cs :=
    List.exists_cons_of_ne_nil (by simp)
  rw [hcs] at h₂ ⊢
  have hnext : (inside .s18 0 s.head).handler stack c = (inside .s19 0 s.head, false) := rfl
  obtain ⟨n₃, hscans₃, h₃⟩ := h₂.hold hnext (by
    rw [s.length_head]
    decide)
  exact ⟨n₃, hscans₁.trans (hscans₂.trans hscans₃), h₃⟩

theorem handler_s19 {c : UInt8} (hzero : stack.afterHead = 0) :
    (inside .s19 0 s.head).handler stack c =
      (inside (if 0x2c = c then .s21 else .s20) 0 s.head, true) := by
  have hsupported : supportedHead s.talker stack.afterHead = true := by
    rw [s.supportedHead_talker, hzero]
    rfl
  have hdeal : (inside .s19 0 s.head).handler stack c =
      if supportedHead s.talker stack.afterHead then
        (if 0x2c = c then (inside .s19 0 s.head).goto .s21
          else (inside .s19 0 s.head).goto .s20, true)
      else ((inside .s19 0 s.head).fail (.unsupportNmeaHead s.talker), false) := rfl
  rw [hdeal, if_pos hsupported]
  split <;> rfl

theorem handler_s19_fail {c : UInt8} (hzero : stack.afterHead ≠ 0) :
    (inside .s19 0 s.head).handler stack c =
      ((inside .s19 0 s.head).fail (.unsupportNmeaHead s.talker), false) := by
  have hsupported : supportedHead s.talker stack.afterHead ≠ true := by
    rw [s.supportedHead_talker]
    exact mt of_decide_eq_true hzero
  have hdeal : (inside .s19 0 s.head).handler stack c =
      if supportedHead s.talker stack.afterHead then
        (if 0x2c = c then (inside .s19 0 s.head).goto .s21
          else (inside .s19 0 s.head).goto .s20, true)
      else ((inside .s19 0 s.head).fail (.unsupportNmeaHead s.talker), false) := rfl
  rw [hdeal, if_neg hsupported]

/-- Behind a supported talker the scanner comes to the body. -/
theorem Node.At.readType (hzero : stack.afterHead = 0) {bytes : List UInt8}
    (h : n.At (inside .s19 0 s.head) (s.type.drop 3 ++ 0x2c :: bytes)) :
    ∃ n', Scans stack n n' ∧ n'.At (inside .s21 0 (s.head ++ s.type.drop 3 ++ [0x2c])) bytes := by
  have hlen : s.head.length < 1023 := by
    rw [s.length_head]
    decide
  have htype := s.typeLength
  -- A fourth character of the type is taken with the talker, and a comma must follow.
  obtain hdrop | ⟨d, hdrop⟩ : s.type.drop 3 = [] ∨ ∃ d, s.type.drop 3 = [d] := by
    rcases htype with h3 | h4
    · exact Or.inl (List.drop_eq_nil_of_le (Nat.le_of_eq h3))
    · refine Or.inr (List.length_eq_one_iff.mp ?_)
      rw [List.length_drop, h4]
  · rw [hdrop] at h ⊢
    rw [List.append_nil]
    have hcomma := handler_s19 s (c := 0x2c) hzero
    rw [if_pos rfl] at hcomma
    exact h.take hcomma hlen
  · have hd : d ≠ 0x2c := s.typeChars d (List.mem_of_mem_drop (hdrop ▸ List.mem_singleton_self d))
    rw [hdrop] at h ⊢
    have hletter := handler_s19 s (c := d) hzero
    rw [if_neg hd.symm] at hletter
    obtain ⟨n₁, hscans₁, h₁⟩ := h.take hletter hlen
    have hcomma : (inside .s20 0 (s.head ++ [d])).handler stack 0x2c =
        (inside .s21 0 (s.head ++ [d]), true) := rfl
    obtain ⟨n₂, hscans₂, h₂⟩ := h₁.take hcomma (by
      rw [List.length_append, s.length_head, List.length_singleton]
      decide)
    exact ⟨n₂, hscans₁.trans hscans₂, h₂⟩

/-- From the body on the scanner reads to the end of the sentence. -/
theorem Node.At.readBody {v : List UInt8} (hv : v ++ (s.body ++ s.ending) = s.bytes)
    (h : n.At (inside .s21 0 v) (s.body ++ s.ending ++ rest)) :
    ∃ fuel n', n.scan stack fuel = some (⟨.nmeaMsg, s.bytes⟩, n') ∧
      n'.At ⟨none, .s0, 0, ⟨.nmeaMsg, s.bytes⟩⟩ rest := by
  have hlen := s.length_bytes
  rw [← hv] at hlen
  simp only [NmeaSentence.ending, List.length_append, List.length_cons, List.length_nil] at hlen
  rw [List.append_assoc] at h
  obtain ⟨n₁, hscans₁, h₁⟩ := h.takes stack (fun b => bodyChar b = true) (fun _ => 0)
    (fun b m v hb => s21_takes 0 v hb) s.bodyChars (by omega)
  have hstar : (inside .s21 0 (v ++ s.body)).handler stack 0x2a =
      (inside .s22 4 (v ++ s.body), true) := rfl
  obtain ⟨n₂, hscans₂, h₂⟩ := h₁.take hstar (by
    rw [List.length_append]
    omega)
  have hchecksum : n₂.At (inside .s22 ([s.digits.1, s.digits.2, 0x0d].length + 1)
      (v ++ s.body ++ [0x2a])) ([s.digits.1, s.digits.2, 0x0d] ++ 0x0a :: rest) := h₂
  obtain ⟨n₃, hscans₃, h₃⟩ := hchecksum.takes stack (fun _ => True) (fun m => m + 1)
    (fun b m v _ => s22_takes b m v) (fun _ _ => trivial) (by
      simp only [List.length_append, List.length_cons, List.length_nil]
      omega)
  have htoken : v ++ s.body ++ [0x2a] ++ [s.digits.1, s.digits.2, 0x0d] ++ [0x0a] = s.bytes := by
    rw [← hv, NmeaSentence.ending]
    simp only [List.append_assoc, List.cons_append, List.nil_append]
  have hlast : (inside .s22 1 (v ++ s.body ++ [0x2a] ++ [s.digits.1, s.digits.2, 0x0d])).handler
      stack 0x0a = ((inside .s22 0
        (v ++ s.body ++ [0x2a] ++ [s.digits.1, s.digits.2, 0x0d])).accept .nmeaMsg, true) := rfl
  have hchar := scanChar_accept hlast (by
    simp only [List.length_append, List.length_cons, List.length_nil]
    omega)
  rw [htoken] at hchar
  have htype : TokenType.nmeaMsg ≠ .none := by decide
  obtain ⟨fuel, n', hreturns, hend⟩ := h₃.returns hchar htype
  obtain ⟨fuel', hfuel'⟩ := (hscans₁.trans (hscans₂.trans hscans₃)).returns hreturns
  exact ⟨fuel', n', hfuel', hend⟩

/-- Entered at its start before a sentence, a scan returns it, or an error token at the talker. -/
theorem Node.At.scanSentence (stack : StackBytes) (h : n.At (inside .s0 k []) (s.bytes ++ rest)) :
    ∃ fuel r, n.scan stack fuel = some r ∧
      (stack.afterHead = 0 → r.1 = ⟨.nmeaMsg, s.bytes⟩ ∧
        r.2.At ⟨none, .s0, 0, ⟨.nmeaMsg, s.bytes⟩⟩ rest) ∧
      (stack.afterHead ≠ 0 → r.1 = ⟨.error, s.head⟩) := by
  obtain ⟨n₁, hscans₁, h₁⟩ := h.readHead s stack
  by_cases hzero : stack.afterHead = 0
  · rw [List.append_assoc] at h₁
    obtain ⟨n₂, hscans₂, h₂⟩ := h₁.readType s hzero
    have hv : s.head ++ s.type.drop 3 ++ [0x2c] ++ (s.body ++ s.ending) = s.bytes := by
      rw [s.bytes_eq]
      simp only [List.append_assoc, List.cons_append, List.nil_append]
    obtain ⟨fuel, n', hreturns, hend⟩ := h₂.readBody s hv
    obtain ⟨fuel', hfuel'⟩ := (hscans₁.trans hscans₂).returns hreturns
    exact ⟨fuel', _, hfuel', fun _ => ⟨rfl, hend⟩, fun hnot => absurd hzero hnot⟩
  · obtain ⟨c, cs, hcs⟩ : ∃ c cs,
        s.type.drop 3 ++ 0x2c :: (s.body ++ s.ending) ++ rest = c :: cs :=
      List.exists_cons_of_ne_nil (by simp)
    rw [hcs] at h₁
    have hchar := scanChar_fail (handler_s19_fail s (c := c) hzero) (by
      rw [s.length_head]
      decide)
    have htype : TokenType.error ≠ .none := by decide
    obtain ⟨fuel, n', hreturns, -⟩ := h₁.returns hchar htype
    obtain ⟨fuel', hfuel'⟩ := hscans₁.returns hreturns
    exact ⟨fuel', _, hfuel', fun hyes => absurd hyes hzero, fun _ => rfl⟩

/-- Where a zero stands behind the talker the node publishes the sentence and is back at the
start. -/
theorem Node.At.publishes (h : n.At (inside .s0 k []) (s.bytes ++ rest))
    (hzero : stack.afterHead = 0) :
    ∃ i n' published msg, Token.singleMsg ⟨.nmeaMsg, s.bytes⟩ = some msg ∧
      Runs (fun _ => stack) i n n' ∧ n'.unread = rest ∧
      n'.decoder = mid .s0 0 [] (published ++ [msg]) := by
  obtain ⟨fuel, r, hscan, htoken, -⟩ := h.scanSentence s stack
  obtain ⟨-, hend⟩ := htoken hzero
  obtain ⟨msg, hmsg⟩ : ∃ msg, Token.singleMsg ⟨.nmeaMsg, s.bytes⟩ = some msg := ⟨_, rfl⟩
  obtain ⟨i, hrun⟩ := runs_of_scan hscan
  refine ⟨i, _, r.2.decoder.published, msg, hmsg, hrun, hend.unread, ?_⟩
  obtain ⟨t, decoder, buffer, pointer, reads⟩ := r
  obtain ⟨scanner, published⟩ := decoder
  obtain rfl : scanner = _ := hend.scanner
  simp only [Decoder.handleToken, hmsg]
  rfl

/-- A scan entered at its start before a sentence returns exactly the sentence if and only if a
zero stands behind the two characters compared with the talkers. -/
theorem scan_sentence_iff (h : n.At (inside .s0 k []) (s.bytes ++ rest)) :
    (∃ fuel n', n.scan stack fuel = some (⟨.nmeaMsg, s.bytes⟩, n') ∧
        n'.At ⟨none, .s0, 0, ⟨.nmeaMsg, s.bytes⟩⟩ rest) ↔
      stack.afterHead = 0 := by
  obtain ⟨fuel, r, hscan, htoken, hfails⟩ := h.scanSentence s stack
  constructor
  · rintro ⟨fuel', n', hsentence, -⟩
    by_contra hzero
    have herror := hfails hzero
    rw [scan_unique hscan hsentence] at herror
    cases herror
  · intro hzero
    obtain ⟨hvalue, hend⟩ := htoken hzero
    exact ⟨fuel, r.2, by rw [hscan, ← hvalue], hend⟩

end Sentence

/-- `$GPGGA,0*4A`, with its line end. -/
def ggaSentence : NmeaSentence where
  talker := (0x47, 0x50)
  type := [0x47, 0x47, 0x41]
  body := [0x30]
  digits := (0x34, 0x41)
  supported := by decide
  typeLength := by decide
  typeChars := List.forall_mem_cons.mpr ⟨by decide, List.forall_mem_cons.mpr
    ⟨by decide, List.forall_mem_singleton.mpr (by decide)⟩⟩
  bodyChars := List.forall_mem_singleton.mpr (by decide)
  hexDigits := by decide
  fits := by decide

/-- A node before the sentence, in two reads. -/
def ggaNode : Node := { reads := [ggaSentence.bytes.take 4, ggaSentence.bytes.drop 4] }

theorem ggaNode_at : ggaNode.At (inside .s0 0 []) (ggaSentence.bytes ++ []) :=
  ⟨⟨Nat.le_refl _, by decide⟩, rfl, by decide⟩

theorem scan_sentence_iff_gga :
    (∃ fuel n', ggaNode.scan ⟨0, 0⟩ fuel =
        some (⟨.nmeaMsg, ggaSentence.bytes⟩, n') ∧
          n'.At ⟨none, .s0, 0, ⟨.nmeaMsg, ggaSentence.bytes⟩⟩ []) ↔
      (0 : UInt8) = 0 :=
  scan_sentence_iff ggaSentence ggaNode_at

/-- With another byte behind the two characters the scan rejects the sentence. -/
theorem scan_sentence_rejected :
    ggaNode.At (inside .s0 0 []) (ggaSentence.bytes ++ []) ∧
      ¬∃ fuel n', ggaNode.scan ⟨1, 0⟩ fuel =
        some (⟨.nmeaMsg, ggaSentence.bytes⟩, n') := by
  refine ⟨ggaNode_at, ?_⟩
  rintro ⟨fuel, n', hsentence⟩
  obtain ⟨fuel', r, hscan, -, hfails⟩ :=
    ggaNode_at.scanSentence ggaSentence ⟨1, 0⟩
  have herror := hfails (by decide)
  rw [scan_unique hscan hsentence] at herror
  cases herror

end FastLivo.Chcnav
