import FastLivo.Chcnav.Nmea
import FastLivo.Chcnav.Progress
import Mathlib.Data.List.TakeWhile

/-!
# The checksum of NMEA sentences

`msg_recv_callback` compares the exclusive or of a sentence with what `strtol` makes of the two
characters behind the star. `strtol` stops at the first character that is no digit and reports
nothing, so that malformed digits count as a shorter number.
-/

namespace FastLivo.Chcnav

/-! ## The callback -/

/-- What the node publishes. -/
inductive Publication
  | nmea (sentence : List UInt8)
  | hc (msgId : ℕ) (data : List UInt8)
  deriving DecidableEq, Repr

/-- `strtol(raw_xor_string, NULL, 16)` of `0x` and these characters. When no digit follows the
prefix the number is the zero before it. -/
def strtolHex (digits : List UInt8) : ℕ :=
  ((digits.map hexDigit).takeWhile Option.isSome).foldl (fun n d => 16 * n + d.getD 0) 0

/-- `msg_id` of a message, as the callback reads it. -/
def TypeValue.msgId : TypeValue → ℕ
  | .nmea _ => 0
  | .cgi msgId => msgId

/-- `msg_recv_callback`. -/
def msgRecvCallback (m : SingleMsg) : Option Publication :=
  match m.msgType with
  | .nmea =>
    let len := m.value.length
    if len < 5 then none
    else
      let nmeaEnd2 := (m.value.getD (len - 2) 0, m.value.getD (len - 1) 0)
      -- The line end is overwritten with zeros, and the text ends at the first zero.
      let value := m.value.take (len - 2) ++ [0, 0]
      let sentence := value.takeWhile (· != 0)
      let xorCheck := (value.take (len - 5)).foldl (· ^^^ ·) (value.getD 0 0)
      if strtolHex [value.getD (len - 4) 0, value.getD (len - 3) 0] ≠ xorCheck.toNat then none
      else if nmeaEnd2.1 ≠ 0x0d ∨ nmeaEnd2.2 ≠ 0x0a then none
      else some (.nmea sentence)
  | .cgiHeader | .cgiShortHeader => some (.hc m.typeValue.msgId m.value)

/-! ## Tokens -/

/-- A token as the scanner emits it: what lies between the dollar sign and the star, and the four
characters behind the star. -/
structure NmeaToken where
  between : List UInt8
  digits : UInt8 × UInt8
  lineEnd : UInt8 × UInt8

namespace NmeaToken

def bytes (t : NmeaToken) : List UInt8 :=
  0x24 :: (t.between ++ [0x2a, t.digits.1, t.digits.2, t.lineEnd.1, t.lineEnd.2])

/-- The exclusive or of the bytes between dollar sign and star. -/
def xor (t : NmeaToken) : UInt8 := t.between.foldl (· ^^^ ·) 0

/-- What the node should publish: two digits with the value of the exclusive or, and a line end. -/
def Valid (t : NmeaToken) : Prop :=
  (∃ high low, hexDigit t.digits.1 = some high ∧ hexDigit t.digits.2 = some low ∧
      16 * high + low = t.xor.toNat) ∧
    t.lineEnd = (0x0d, 0x0a)

/-- Both digits are digits, or the sentence does not pass for another reason: the line end is
wrong, or the number that is left of the digits differs from the exclusive or. -/
def Decided (t : NmeaToken) : Prop :=
  ((hexDigit t.digits.1).isSome ∧ (hexDigit t.digits.2).isSome) ∨ t.lineEnd ≠ (0x0d, 0x0a) ∨
    (hexDigit t.digits.1).getD 0 ≠ t.xor.toNat

end NmeaToken

/-- A number of two digits. -/
theorem strtolHex_two {a b : UInt8} {high low : ℕ} (ha : hexDigit a = some high)
    (hb : hexDigit b = some low) : strtolHex [a, b] = 16 * high + low := by
  simp [strtolHex, ha, hb]

/-- Otherwise the number is what the first character stands for. -/
theorem strtolHex_short {a b : UInt8}
    (h : ¬((hexDigit a).isSome = true ∧ (hexDigit b).isSome = true)) :
    strtolHex [a, b] = (hexDigit a).getD 0 := by
  cases ha : hexDigit a with
  | none => simp [strtolHex, ha]
  | some high =>
    cases hb : hexDigit b with
    | none => simp [strtolHex, ha, hb]
    | some low => exact absurd ⟨by rw [ha]; rfl, by rw [hb]; rfl⟩ h

namespace NmeaToken

variable (t : NmeaToken)

/-- A token up to its star. -/
def front : List UInt8 := 0x24 :: (t.between ++ [0x2a])

theorem length_front : t.front.length = t.between.length + 2 := by
  simp only [front, List.length_cons, List.length_append, List.length_nil]

theorem bytes_eq :
    t.bytes = t.front ++ [t.digits.1, t.digits.2, t.lineEnd.1, t.lineEnd.2] := by
  simp only [bytes, front, List.cons_append, List.append_assoc, List.nil_append]

theorem length_bytes : t.bytes.length = t.front.length + 4 := by
  rw [t.bytes_eq, List.length_append]
  rfl

theorem take_bytes : t.bytes.take (t.bytes.length - 2) = t.front ++ [t.digits.1, t.digits.2] := by
  have hsplit : t.bytes = t.front ++ [t.digits.1, t.digits.2] ++ [t.lineEnd.1, t.lineEnd.2] := by
    rw [t.bytes_eq, List.append_assoc]
    rfl
  have hlen : t.bytes.length - 2 = (t.front ++ [t.digits.1, t.digits.2]).length := by
    rw [t.length_bytes, List.length_append]
    rfl
  rw [hlen, hsplit, List.take_left]

/-- The characters that the callback reads back from the end. -/
theorem getD_front (i : ℕ) (rest : List UInt8) :
    (t.front ++ rest).getD (t.front.length + i) 0 = rest.getD i 0 := by
  rw [List.getD_append_right _ _ _ _ (Nat.le_add_right _ _), Nat.add_sub_cancel_left]

/-- The loop over the sentence: the seed cancels the dollar sign. -/
theorem foldl_front (rest : List UInt8) :
    ((t.front ++ rest).take (t.bytes.length - 5)).foldl (· ^^^ ·) ((t.front ++ rest).getD 0 0) =
      t.xor := by
  have hlen : t.bytes.length - 5 = (0x24 :: t.between).length := by
    rw [t.length_bytes, t.length_front, List.length_cons]
    omega
  have hsplit : t.front ++ rest = 0x24 :: t.between ++ (0x2a :: rest) := by
    simp only [front, List.cons_append, List.append_assoc, List.nil_append]
  have hhead : (t.front ++ rest).getD 0 0 = 0x24 := rfl
  rw [hhead, hlen, hsplit, List.take_left, List.foldl_cons]
  rfl

/-- When the callback publishes a token. -/
theorem msgRecvCallback_isSome (typeValue : TypeValue) :
    (msgRecvCallback ⟨.nmea, typeValue, t.bytes⟩).isSome = true ↔
      strtolHex [t.digits.1, t.digits.2] = t.xor.toNat ∧ t.lineEnd = (0x0d, 0x0a) := by
  have hlen := t.length_bytes
  have hfive : ¬t.bytes.length < 5 := by
    rw [hlen, t.length_front]
    omega
  have hend (i : ℕ) (hi : i < 4) : t.bytes.getD (t.bytes.length - (4 - i)) 0 =
      [t.digits.1, t.digits.2, t.lineEnd.1, t.lineEnd.2].getD i 0 := by
    have hindex : t.bytes.length - (4 - i) = t.front.length + i := by omega
    rw [hindex, t.bytes_eq, t.getD_front]
  have hdigit (i : ℕ) (hi : i < 4) :
      (t.front ++ [t.digits.1, t.digits.2] ++ [0, 0]).getD (t.bytes.length - (4 - i)) 0 =
        [t.digits.1, t.digits.2, 0, 0].getD i 0 := by
    have hindex : t.bytes.length - (4 - i) = t.front.length + i := by omega
    rw [hindex, List.append_assoc, t.getD_front]
    rfl
  have hxor : ((t.front ++ [t.digits.1, t.digits.2] ++ [0, 0]).take (t.bytes.length - 5)).foldl
      (· ^^^ ·) ((t.front ++ [t.digits.1, t.digits.2] ++ [0, 0]).getD 0 0) = t.xor := by
    rw [List.append_assoc]
    exact t.foldl_front _
  have hlast : t.bytes.getD (t.bytes.length - 1) 0 = t.lineEnd.2 := hend 3 (by decide)
  have hprev : t.bytes.getD (t.bytes.length - 2) 0 = t.lineEnd.1 := hend 2 (by decide)
  have hhigh : (t.front ++ [t.digits.1, t.digits.2] ++ [0, 0]).getD (t.bytes.length - 4) 0 =
      t.digits.1 := hdigit 0 (by decide)
  have hlow : (t.front ++ [t.digits.1, t.digits.2] ++ [0, 0]).getD (t.bytes.length - 3) 0 =
      t.digits.2 := hdigit 1 (by decide)
  have hpair : t.lineEnd = (0x0d, 0x0a) ↔ t.lineEnd.1 = 0x0d ∧ t.lineEnd.2 = 0x0a :=
    Prod.ext_iff
  simp only [msgRecvCallback, if_neg hfive, t.take_bytes, hxor, hlast, hprev, hhigh, hlow]
  rw [hpair]
  by_cases hnumber : strtolHex [t.digits.1, t.digits.2] = t.xor.toNat
  · rw [if_neg (not_not_intro hnumber)]
    by_cases hcrlf : t.lineEnd.1 = 0x0d ∧ t.lineEnd.2 = 0x0a
    · rw [if_neg (not_or.mpr ⟨not_not_intro hcrlf.1, not_not_intro hcrlf.2⟩)]
      exact ⟨fun _ => ⟨hnumber, hcrlf⟩, fun _ => rfl⟩
    · rw [if_pos (Decidable.not_and_iff_not_or_not.mp hcrlf)]
      exact ⟨fun h => absurd h Bool.false_ne_true, fun h => absurd h.2 hcrlf⟩
  · rw [if_pos hnumber]
    exact ⟨fun h => absurd h Bool.false_ne_true, fun h => absurd h.1 hnumber⟩

/-- The callback meets the check exactly on the tokens that are decided. -/
theorem msgRecvCallback_iff (typeValue : TypeValue) :
    ((msgRecvCallback ⟨.nmea, typeValue, t.bytes⟩).isSome = true ↔ t.Valid) ↔ t.Decided := by
  rw [t.msgRecvCallback_isSome]
  by_cases hdigits : (hexDigit t.digits.1).isSome = true ∧ (hexDigit t.digits.2).isSome = true
  · obtain ⟨high, hhigh⟩ := Option.isSome_iff_exists.mp hdigits.1
    obtain ⟨low, hlow⟩ := Option.isSome_iff_exists.mp hdigits.2
    rw [strtolHex_two hhigh hlow]
    refine iff_of_true ⟨fun h => ⟨⟨high, low, hhigh, hlow, h.1⟩, h.2⟩, ?_⟩ (Or.inl hdigits)
    rintro ⟨⟨high', low', hhigh', hlow', hxor⟩, hend⟩
    obtain rfl := Option.some.inj (hhigh.symm.trans hhigh')
    obtain rfl := Option.some.inj (hlow.symm.trans hlow')
    exact ⟨hxor, hend⟩
  · have hinvalid : ¬t.Valid := by
      rintro ⟨⟨high, low, hhigh, hlow, -⟩, -⟩
      exact hdigits ⟨by rw [hhigh]; rfl, by rw [hlow]; rfl⟩
    rw [strtolHex_short hdigits, iff_false_right hinvalid, Decided, or_iff_right hdigits]
    tauto

end NmeaToken

/-! ## Tokens that the scanner emits -/

/-- What has been read of a sentence in each of its states. -/
inductive Reading : ParserState → ℕ → List UInt8 → Prop
  | start (k : ℕ) : Reading .s0 k []
  | frame {x : ParserState} (k : ℕ) (v : List UInt8) : x.isFrame = true → Reading x k v
  | head {k : ℕ} (w : List UInt8) : Reading .s18 k (0x24 :: w)
  | talker {k : ℕ} (w : List UInt8) : Reading .s19 k (0x24 :: w)
  | letter {k : ℕ} (w : List UInt8) : Reading .s20 k (0x24 :: w)
  | body {k : ℕ} (w : List UInt8) : Reading .s21 k (0x24 :: w)
  | ending {k : ℕ} (w e : List UInt8) : e.length + k = 4 → 0 < k →
      Reading .s22 k (0x24 :: (w ++ 0x2a :: e))

/-- Where the handler leads: on with the sentence, or to a token of its form. -/
def Leads (r : Scanner × Bool) (c : UInt8) : Prop :=
  (r.1.token.type = .none →
      Reading r.1.state r.1.specifiedLen (r.1.grow (if r.2 then [c] else [])).token.value) ∧
    (r.1.token.type = .nmeaMsg →
      ∃ t : NmeaToken, (r.1.grow (if r.2 then [c] else [])).token.value = t.bytes)

variable {stack : StackBytes} {x : ParserState} {k : ℕ} {v : List UInt8} {p : List SingleMsg}

theorem leads_frame (hframe : x.isFrame = true) (c : UInt8) :
    Leads (Scanner.handler stack ⟨none, x, k, ⟨.none, v⟩⟩ c) c := by
  obtain ⟨r, hr⟩ : ∃ r, Scanner.handler stack ⟨none, x, k, ⟨.none, v⟩⟩ c = r := ⟨_, rfl⟩
  have houtcome := handler_outcome stack x k v c
  rw [hr] at houtcome ⊢
  cases houtcome with
  | goes _ hstays _ => exact ⟨fun _ => .frame _ _ (hstays hframe), nofun⟩
  | fails _ => exact ⟨nofun, nofun⟩
  | accepts _ hnone hnmea => exact ⟨fun h => absurd h hnone, fun h => absurd h (hnmea hframe)⟩

/-- All handlers. -/
theorem handler_leads (h : Reading x k v) (c : UInt8) :
    Leads (Scanner.handler stack ⟨none, x, k, ⟨.none, v⟩⟩ c) c := by
  cases h with
  | frame k v hframe => exact leads_frame hframe c
  | start k =>
    show Leads (Scanner.dealS0 _ c) c
    unfold Scanner.dealS0
    split
    · exact ⟨fun _ => .frame _ _ rfl, nofun⟩
    · split
      · rename_i hdollar
        subst hdollar
        exact ⟨fun _ => .head [], nofun⟩
      · exact ⟨nofun, nofun⟩
  | head w =>
    show Leads (Scanner.countThen _ _) c
    unfold Scanner.countThen
    split
    · exact ⟨fun _ => .head (w ++ [c]), nofun⟩
    · have htalker : Reading .s19 k (0x24 :: w ++ []) := .talker (w ++ [])
      exact ⟨fun _ => htalker, nofun⟩
  | talker w =>
    show Leads (Scanner.dealS19 stack _ c) c
    unfold Scanner.dealS19
    dsimp only
    split
    · split
      · exact ⟨fun _ => .body (w ++ [c]), nofun⟩
      · exact ⟨fun _ => .letter (w ++ [c]), nofun⟩
    · exact ⟨nofun, nofun⟩
  | letter w =>
    show Leads (Scanner.expect _ c _ _) c
    unfold Scanner.expect
    split
    · exact ⟨fun _ => .body (w ++ [c]), nofun⟩
    · exact ⟨nofun, nofun⟩
  | body w =>
    show Leads (Scanner.dealS21 _ c) c
    unfold Scanner.dealS21
    split
    · rename_i hstar
      subst hstar
      exact ⟨fun _ => .ending w [] rfl (Nat.zero_lt_succ 3), nofun⟩
    · split
      · exact ⟨fun _ => .body (w ++ [c]), nofun⟩
      · exact ⟨nofun, nofun⟩
  | ending w e hlen hpos =>
    show Leads (Scanner.countAccept _ _) c
    unfold Scanner.countAccept
    dsimp only
    have hgrown : (0x24 :: (w ++ 0x2a :: e)) ++ [c] = 0x24 :: (w ++ 0x2a :: (e ++ [c])) := by
      simp only [List.cons_append, List.append_assoc]
    split
    · rename_i hlast
      -- The fourth character completes the token.
      have hfour : (e ++ [c]).length = 4 := by
        rw [List.length_append, List.length_singleton]
        omega
      obtain ⟨a, b, d, f, he⟩ := List.length_eq_four.mp hfour
      refine ⟨nofun, fun _ => ⟨⟨w, (a, b), (d, f)⟩, ?_⟩⟩
      rw [NmeaToken.bytes, ← he]
      exact hgrown
    · rename_i hmore
      refine ⟨fun _ => ?_, nofun⟩
      have hending : Reading .s22 (k - 1) (0x24 :: (w ++ 0x2a :: (e ++ [c]))) := by
        refine .ending w (e ++ [c]) ?_ (Nat.pos_of_ne_zero hmore)
        rw [List.length_append, List.length_singleton]
        omega
      rw [← hgrown] at hending
      exact hending

/-- A decoder on its way through a sentence, whose messages have the form of a sentence. -/
inductive Checked : Decoder → Prop
  | mk {x : ParserState} {k : ℕ} {v : List UInt8} {p : List SingleMsg} : Reading x k v →
      (∀ msg ∈ p, msg.msgType = .nmea → ∃ t : NmeaToken, msg.value = t.bytes) →
      Checked (mid x k v p)

theorem Checked.form {d : Decoder} (h : Checked d) {msg : SingleMsg} (hmem : msg ∈ d.published)
    (hnmea : msg.msgType = .nmea) : ∃ t : NmeaToken, msg.value = t.bytes := by
  obtain ⟨-, hp⟩ := h
  exact hp msg hmem hnmea

/-- Only an NMEA token becomes an NMEA message. -/
theorem singleMsg_nmea {t : Token} {msg : SingleMsg} (h : t.singleMsg = some msg)
    (hnmea : msg.msgType = .nmea) : t.type = .nmeaMsg := by
  unfold Token.singleMsg at h
  split at h
  · rw [← Option.some.inj h] at hnmea
    cases hnmea
  · rw [← Option.some.inj h] at hnmea
    cases hnmea
  · assumption
  · cases h

theorem feed_checked (stack : StackBytes) {d : Decoder} (h : Checked d) (c : UInt8) :
    Checked (d.feed stack c).1 := by
  obtain ⟨hreading, hp⟩ := h
  rename_i x k v p
  obtain ⟨s, move, hs, houtcome, hleads⟩ : ∃ s move,
      Scanner.handler stack ⟨none, x, k, ⟨.none, v⟩⟩ c = (s, move) ∧ Outcome x k v (s, move) ∧
        Leads (s, move) c :=
    ⟨_, _, rfl, handler_outcome stack x k v c, handler_leads hreading c⟩
  by_cases hfit : s.token.value.length + move.toNat < hcProtocolMaxLen
  · rw [feed_fits hs hfit]
    cases houtcome with
    | goes hy hframe hfalls =>
      rename_i y k'
      have hgoes : Checked (mid y k' (v ++ if move then [c] else []) p) := ⟨hleads.1 rfl, hp⟩
      exact hgoes
    | fails hx =>
      rw [if_neg (by exact nofun), handleToken_error rfl]
      exact ⟨.start _, hp⟩
    | accepts hx htype hframe =>
      rename_i type k'
      let complete : Scanner := Scanner.accept ⟨none, x, k', ⟨.none, v⟩⟩ type
      have hcomplete : complete.token.type ≠ .none := htype
      rw [if_neg hcomplete, handleToken_accept rfl rfl]
      refine ⟨.start _, fun msg hmem hnmea => ?_⟩
      rcases List.mem_append.mp hmem with hold | hnew
      · exact hp msg hold hnmea
      · have hmsg := Option.mem_toList.mp hnew
        have hgrown : (complete.grow (if move then [c] else [])).token.type = .nmeaMsg :=
          singleMsg_nmea hmsg hnmea
        rw [singleMsg_value hmsg]
        exact hleads.2 hgrown
  · rw [feed_tooLong hs hfit]
    exact ⟨.start _, hp⟩

theorem run_checked (stackAt : ℕ → StackBytes) {n : Node} (h : Checked n.decoder) (fuel : ℕ) :
    Checked (n.run stackAt fuel).decoder := by
  induction fuel generalizing n stackAt with
  | zero => exact h
  | succ fuel ih =>
    rw [Node.run]
    cases hstep : n.step (stackAt 0) with
    | none => exact h
    | some n' =>
      refine ih _ ?_
      rw [Node.step] at hstep
      split at hstep
      · split at hstep
        · cases hstep
        · rw [← Option.some.inj hstep]
          exact h
      · obtain ⟨c, -, hfeed⟩ := Option.bind_eq_some_iff.mp hstep
        rw [← Option.some.inj hfeed]
        exact feed_checked (stackAt 0) h c

/-- On every NMEA token of every run the node publishes the valid ones and no others, if and only
if the token is decided. -/
theorem nmea_published_iff (stackAt : ℕ → StackBytes) (reads : List (List UInt8)) (fuel : ℕ)
    {msg : SingleMsg}
    (hmem : msg ∈ (Node.run stackAt fuel { reads := reads }).decoder.published)
    (hnmea : msg.msgType = .nmea) :
    ∃ t : NmeaToken, msg.value = t.bytes ∧
      (((msgRecvCallback msg).isSome = true ↔ t.Valid) ↔ t.Decided) := by
  have hstart : Checked (Node.decoder { reads := reads }) := ⟨.start 0, List.forall_mem_nil _⟩
  obtain ⟨t, ht⟩ := (run_checked stackAt hstart fuel).form hmem hnmea
  refine ⟨t, ht, ?_⟩
  obtain ⟨msgType, typeValue, value⟩ := msg
  obtain rfl : msgType = .nmea := hnmea
  obtain rfl : value = t.bytes := ht
  exact t.msgRecvCallback_iff typeValue

/-- `$GPGGA,0A*BG`: the exclusive or is eleven, and the second digit is none. -/
def malformedToken : NmeaToken where
  between := [0x47, 0x50, 0x47, 0x47, 0x41, 0x2c, 0x30, 0x41]
  digits := (0x42, 0x47)
  lineEnd := (0x0d, 0x0a)

def malformedMessage : SingleMsg :=
  ⟨.nmea, .nmea [0x47, 0x50, 0x47, 0x47, 0x41], malformedToken.bytes⟩

theorem malformedMessage_emitted :
    malformedMessage ∈ (Node.run (fun _ => ⟨0, 0⟩) 20
      { reads := [malformedToken.bytes] }).decoder.published := by
  decide

theorem nmea_published_iff_malformed :
    ∃ t : NmeaToken, malformedMessage.value = t.bytes ∧
      (((msgRecvCallback malformedMessage).isSome = true ↔ t.Valid) ↔ t.Decided) :=
  nmea_published_iff _ _ _ malformedMessage_emitted rfl

/-- A sentence with a malformed checksum is published. -/
theorem malformed_published :
    malformedMessage ∈ (Node.run (fun _ => ⟨0, 0⟩) 20
        { reads := [malformedToken.bytes] }).decoder.published ∧
      (msgRecvCallback malformedMessage).isSome = true ∧ ¬malformedToken.Valid := by
  refine ⟨malformedMessage_emitted, by decide, ?_⟩
  rintro ⟨⟨high, low, -, hlow, -⟩, -⟩
  cases hlow

end FastLivo.Chcnav
