import FastLivo.Chcnav.Stream

/-!
# Progress of the parser

The scanner may look at a character again, after a counter has run out or an error has sent it
back to its start, but at most twice. So the node takes every byte it is given, and the measure of
what is left bounds the number of rounds.
-/

namespace FastLivo.Chcnav

/-- How often the scanner may still look at a character again before it takes one. -/
def ParserState.rank : ParserState → ℕ → ℕ
  | .s0, _ => 0
  | .s4, 0 | .s5, 0 | .s6, 0 | .s7, 0 | .s8, 0 | .s9, 0 | .s14, 0 | .s15, 0 | .s18, 0 | .s23, _ => 2
  | _, _ => 1

theorem ParserState.rank_le (x : ParserState) (k : ℕ) : x.rank k ≤ 2 := by
  unfold ParserState.rank
  split <;> omega

theorem ParserState.rank_pos {x : ParserState} (h : x ≠ .s0) (k : ℕ) : 0 < x.rank k := by
  unfold ParserState.rank
  split <;> first | exact absurd rfl h | omega

/-- Inside a long or a short frame. -/
def ParserState.isFrame : ParserState → Bool
  | .s0 | .s18 | .s19 | .s20 | .s21 | .s22 | .s23 | .s24 => false
  | _ => true

/-! ## What a handler does -/

/-- A handler goes on, fails or completes a token; if the character is to be looked at again, the
rank falls. A frame stays a frame. -/
inductive Outcome (x : ParserState) (k : ℕ) (v : List UInt8) : Scanner × Bool → Prop
  | goes {y : ParserState} {k' : ℕ} {move : Bool} : y ≠ .s0 →
      (x.isFrame = true → y.isFrame = true) → (move = false → y.rank k' < x.rank k) →
      Outcome x k v (⟨none, y, k', ⟨.none, v⟩⟩, move)
  | fails {d : Description} {move : Bool} : (move = false → x ≠ .s0) →
      Outcome x k v ((⟨none, x, k, ⟨.none, v⟩⟩ : Scanner).fail d, move)
  | accepts {type : TokenType} {k' : ℕ} {move : Bool} : x ≠ .s0 → type ≠ .none →
      (x.isFrame = true → type ≠ .nmeaMsg) →
      Outcome x k v ((⟨none, x, k', ⟨.none, v⟩⟩ : Scanner).accept type, move)

variable {stack : StackBytes} {x y : ParserState} {k : ℕ} {v : List UInt8} {c : UInt8}
  {p : List SingleMsg}

theorem outcome_expect {expected : UInt8} {next : ParserState} {k' : ℕ} (hx : x ≠ .s0)
    (hnext : next ≠ .s0) (hframe : x.isFrame = true → next.isFrame = true) :
    Outcome x k v (Scanner.expect ⟨none, x, k, ⟨.none, v⟩⟩ c expected
      ⟨none, next, k', ⟨.none, v⟩⟩) := by
  unfold Scanner.expect
  split
  · exact .goes hnext hframe nofun
  · exact .fails fun _ => hx

theorem outcome_countThen {next : ParserState} {k' : ℕ} (hx : x ≠ .s0) (hnext : next ≠ .s0)
    (hframe : x.isFrame = true → next.isFrame = true) (hrank : next.rank k' < x.rank 0) :
    Outcome x k v (Scanner.countThen ⟨none, x, k, ⟨.none, v⟩⟩ ⟨none, next, k', ⟨.none, v⟩⟩) := by
  unfold Scanner.countThen
  split
  · exact .goes hx id nofun
  · rename_i hzero
    obtain rfl : k = 0 := Nat.eq_zero_of_not_pos hzero
    exact .goes hnext hframe fun _ => hrank

theorem outcome_countAccept {type : TokenType} (hx : x ≠ .s0) (htype : type ≠ .none)
    (hframe : x.isFrame = true → type ≠ .nmeaMsg) :
    Outcome x k v (Scanner.countAccept ⟨none, x, k, ⟨.none, v⟩⟩ type) := by
  unfold Scanner.countAccept
  dsimp only
  split
  · exact .accepts hx htype hframe
  · exact .goes hx id nofun

/-- All handlers. -/
theorem handler_outcome (stack : StackBytes) (x : ParserState) (k : ℕ) (v : List UInt8)
    (c : UInt8) :
    Outcome x k v (Scanner.handler stack ⟨none, x, k, ⟨.none, v⟩⟩ c) := by
  cases x with
  | s0 =>
    show Outcome .s0 k v (Scanner.dealS0 _ c)
    unfold Scanner.dealS0
    split
    · exact .goes (by decide) (by decide) nofun
    · split
      · exact .goes (by decide) (by decide) nofun
      · exact .fails nofun
  | s1 =>
    show Outcome .s1 k v (Scanner.dealS1 _ c)
    unfold Scanner.dealS1
    split
    · exact .goes (by decide) (by decide) nofun
    · split
      · exact .goes (by decide) (by decide) nofun
      · exact .fails fun _ => by decide
  | s2 => exact outcome_expect (by decide) (by decide) (by decide)
  | s3 => exact outcome_expect (by decide) (by decide) (by decide)
  | s12 => exact outcome_expect (by decide) (by decide) (by decide)
  | s13 => exact outcome_expect (by decide) (by decide) (by decide)
  | s20 => exact outcome_expect (by decide) (by decide) (by decide)
  | s4 => exact outcome_countThen (by decide) (by decide) (by decide) (by decide)
  | s5 => exact outcome_countThen (by decide) (by decide) (by decide) (by decide)
  | s6 => exact outcome_countThen (by decide) (by decide) (by decide) (by decide)
  | s7 => exact outcome_countThen (by decide) (by decide) (by decide) (by decide)
  | s8 => exact outcome_countThen (by decide) (by decide) (by decide) (by decide)
  | s14 => exact outcome_countThen (by decide) (by decide) (by decide) (by decide)
  | s9 => exact outcome_countThen (by decide) (by decide) (by decide) (Nat.lt_succ_self 1)
  | s15 => exact outcome_countThen (by decide) (by decide) (by decide) (Nat.lt_succ_self 1)
  | s18 => exact outcome_countThen (by decide) (by decide) (by decide) (Nat.lt_succ_self 1)
  | s10 => exact outcome_countAccept (by decide) (by decide) (by decide)
  | s16 => exact outcome_countAccept (by decide) (by decide) (by decide)
  | s22 => exact outcome_countAccept (by decide) (by decide) (by decide)
  | s11 => exact .accepts (by decide) (by decide) (by decide)
  | s17 => exact .accepts (by decide) (by decide) (by decide)
  | s24 => exact .accepts (by decide) (by decide) (by decide)
  | s19 =>
    show Outcome .s19 k v (Scanner.dealS19 stack _ c)
    unfold Scanner.dealS19
    dsimp only
    split
    · split
      · exact .goes (by decide) (by decide) nofun
      · exact .goes (by decide) (by decide) nofun
    · exact .fails fun _ => by decide
  | s21 =>
    show Outcome .s21 k v (Scanner.dealS21 _ c)
    unfold Scanner.dealS21
    split
    · exact .goes (by decide) (by decide) nofun
    · split
      · exact .goes (by decide) (by decide) nofun
      · exact .fails fun _ => by decide
  | s23 =>
    show Outcome .s23 k v (Scanner.dealS23 stack _)
    unfold Scanner.dealS23
    dsimp only
    split
    · exact .goes (by decide) (by decide) fun _ => Nat.lt_succ_self 1
    · exact .fails fun _ => by decide

/-! ## Rounds of the node -/

/-- A decoder inside a scan: the tokens fit, and at the start the token is empty. -/
inductive Scanning : Decoder → Prop
  | mk {x : ParserState} {k : ℕ} {v : List UInt8} {p : List SingleMsg} : v.length ≤ 1023 →
      (x = .s0 → v = []) → (∀ msg ∈ p, msg.value.length ≤ 1023) → Scanning (mid x k v p)

/-- How often the decoder may still look at a character again. -/
def Decoder.rank (d : Decoder) : ℕ := d.scanner.state.rank d.scanner.specifiedLen

theorem Scanning.start (k : ℕ) (hp : ∀ msg ∈ p, msg.value.length ≤ 1023) :
    Scanning (mid .s0 k [] p) :=
  ⟨Nat.zero_le _, fun _ => rfl, hp⟩

theorem Scanning.length_le {d : Decoder} (h : Scanning d) :
    d.scanner.token.value.length ≤ 1023 ∧ ∀ msg ∈ d.published, msg.value.length ≤ 1023 := by
  obtain ⟨hlen, -, hp⟩ := h
  exact ⟨hlen, hp⟩

/-- A message has the bytes of its token. -/
theorem singleMsg_value {t : Token} {msg : SingleMsg} (h : t.singleMsg = some msg) :
    msg.value = t.value := by
  unfold Token.singleMsg at h
  split at h
  · rw [← Option.some.inj h]
  · rw [← Option.some.inj h]
  · rw [← Option.some.inj h]
  · cases h

/-- The node goes back to the start after an error. -/
theorem handleToken_error {s : Scanner} (htype : s.token.type = .error) (p : List SingleMsg) :
    (Decoder.handleToken ⟨s, p⟩).enterScan = mid .s0 s.specifiedLen [] p := by
  have hmsg : s.token.singleMsg = none := by rw [Token.singleMsg, htype]
  simp only [Decoder.handleToken, hmsg]
  rfl

/-- And after a token, whose message is published. -/
theorem handleToken_accept {s : Scanner} (herror : s.error = none) (hstate : s.state = .s0)
    (p : List SingleMsg) :
    (Decoder.handleToken ⟨s, p⟩).enterScan =
      mid .s0 s.specifiedLen [] (p ++ s.token.singleMsg.toList) := by
  obtain ⟨error, state, specifiedLen, token⟩ := s
  obtain rfl : error = none := herror
  obtain rfl : state = .s0 := hstate
  cases hmsg : token.singleMsg with
  | none =>
    simp only [Decoder.handleToken, hmsg, Option.toList_none, List.append_nil]
    rfl
  | some msg =>
    simp only [Decoder.handleToken, hmsg, Option.toList_some]
    rfl

/-- A character that does not fit the token any more. -/
theorem feed_tooLong {s : Scanner} {move : Bool}
    (h : Scanner.handler stack ⟨none, x, k, ⟨.none, v⟩⟩ c = (s, move))
    (hlong : ¬s.token.value.length + move.toNat < hcProtocolMaxLen) :
    (mid x k v p).feed stack c = (mid .s0 s.specifiedLen [] p, false) := by
  simp only [Decoder.feed, Scanner.scanChar, mid, h, if_neg hlong]
  rfl

/-- The scanner takes what the handler has left of the token, with the character if it is taken. -/
def Scanner.grow (s : Scanner) (taken : List UInt8) : Scanner :=
  { s with token := { s.token with value := s.token.value ++ taken } }

/-- A character that fits. -/
theorem feed_fits {s : Scanner} {move : Bool}
    (h : Scanner.handler stack ⟨none, x, k, ⟨.none, v⟩⟩ c = (s, move))
    (hfit : s.token.value.length + move.toNat < hcProtocolMaxLen) :
    (mid x k v p).feed stack c =
      if s.token.type = .none then (⟨s.grow (if move then [c] else []), p⟩, move)
      else ((Decoder.handleToken ⟨s.grow (if move then [c] else []), p⟩).enterScan, move) := by
  simp only [Decoder.feed, Scanner.scanChar, mid, h, if_pos hfit]
  rfl

/-- A round: the decoder stays inside a scan, and looks at the character again only while the
rank falls. -/
theorem feed_scanning (stack : StackBytes) {d : Decoder} (h : Scanning d) (c : UInt8) :
    Scanning (d.feed stack c).1 ∧
      ((d.feed stack c).2 = false → (d.feed stack c).1.rank < d.rank) := by
  obtain ⟨hlen, hstart, hp⟩ := h
  rename_i x k v p
  have hrank : (mid x k v p).rank = x.rank k := rfl
  have hback (k' : ℕ) (p' : List SingleMsg) : (mid .s0 k' [] p').rank = 0 := rfl
  obtain ⟨s, move, hs, houtcome⟩ : ∃ s move,
      Scanner.handler stack ⟨none, x, k, ⟨.none, v⟩⟩ c = (s, move) ∧ Outcome x k v (s, move) :=
    ⟨_, _, rfl, handler_outcome stack x k v c⟩
  have hvalue : s.token.value = v := by cases houtcome <;> rfl
  by_cases hfit : s.token.value.length + move.toNat < hcProtocolMaxLen
  · have hgrown : (s.grow (if move then [c] else [])).token.value.length ≤ 1023 := by
      have htaken : (if move then [c] else []).length = move.toNat := by cases move <;> rfl
      rw [Scanner.grow, List.length_append, htaken]
      exact Nat.le_of_lt_succ hfit
    rw [feed_fits hs hfit]
    cases houtcome with
    | goes hy hframe hfalls =>
      rename_i y k'
      have hscanning : Scanning (mid y k' (v ++ if move then [c] else []) p) :=
        ⟨hgrown, fun h => absurd h hy, hp⟩
      exact ⟨hscanning, hfalls⟩
    | fails hx =>
      rw [if_neg (by exact nofun), handleToken_error rfl]
      exact ⟨.start _ hp, fun hmove => ParserState.rank_pos (hx hmove) k⟩
    | accepts hx htype hframe =>
      rename_i type k'
      let complete : Scanner := Scanner.accept ⟨none, x, k', ⟨.none, v⟩⟩ type
      have hcomplete : complete.token.type ≠ .none := htype
      rw [if_neg hcomplete, handleToken_accept rfl rfl]
      refine ⟨.start _ fun msg hmem => ?_, fun _ => ParserState.rank_pos hx k⟩
      rcases List.mem_append.mp hmem with hold | hnew
      · exact hp msg hold
      · rw [singleMsg_value (Option.mem_toList.mp hnew)]
        exact hgrown
  · rw [feed_tooLong hs hfit, hback, hrank]
    refine ⟨.start _ hp, fun _ => ParserState.rank_pos ?_ k⟩
    rintro rfl
    have hmove := Bool.toNat_le move
    rw [hvalue, hstart rfl, hcProtocolMaxLen, List.length_nil] at hfit
    omega

/-! ## Runs of the node -/

/-- The bytes that the node still has to parse; a read that does not fit counts for nothing. -/
def Node.input (n : Node) : List UInt8 :=
  n.buffer.drop n.pointer ++ n.reads.flatMap (parserReadHandler hcProtocolMaxLen)

/-- The node inside a scan, its pointer in the filled part of the buffer. -/
structure Node.Valid (n : Node) : Prop where
  scanning : Scanning n.decoder
  pointer : n.pointer ≤ n.buffer.length

/-- Falls with every round: a byte is looked at three times at most. -/
def Node.measure (n : Node) : ℕ := 3 * n.input.length + n.decoder.rank + n.reads.length

theorem Node.valid_start (reads : List (List UInt8)) : Node.Valid { reads := reads } :=
  ⟨.start 0 (List.forall_mem_nil _), Nat.le_refl _⟩

variable {n n' : Node}

/-- A round that shows the scanner a byte. -/
theorem Node.Valid.step_feed (stack : StackBytes) (h : n.Valid)
    (hin : n.pointer < n.buffer.length) :
    ∃ n', n.step stack = some n' ∧ n'.Valid ∧ n'.buffer = n.buffer ∧ n'.reads = n.reads ∧
      (n'.pointer = n.pointer + 1 ∨
        n'.pointer = n.pointer ∧ n'.decoder.rank < n.decoder.rank) := by
  obtain ⟨hscanning, hfalls⟩ := feed_scanning stack h.scanning n.buffer[n.pointer]
  refine ⟨{ n with
      decoder := (n.decoder.feed stack n.buffer[n.pointer]).1
      pointer := n.pointer + (n.decoder.feed stack n.buffer[n.pointer]).2.toNat },
    ?_, ⟨hscanning, ?_⟩, rfl, rfl, ?_⟩
  · rw [Node.step, if_neg (Nat.ne_of_lt hin), List.getElem?_eq_getElem hin]
    rfl
  · have hmove := Bool.toNat_le (n.decoder.feed stack n.buffer[n.pointer]).2
    show n.pointer + _ ≤ n.buffer.length
    omega
  · cases hmove : (n.decoder.feed stack n.buffer[n.pointer]).2 with
    | true => exact Or.inl rfl
    | false => exact Or.inr ⟨rfl, hfalls hmove⟩

/-- A round that reads from the device. -/
theorem Node.Valid.step_read (stack : StackBytes) {read : List UInt8}
    {reads : List (List UInt8)} (h : n.Valid)
    (hlast : n.pointer = n.buffer.length) (hreads : n.reads = read :: reads) :
    ∃ n', n.step stack = some n' ∧ n'.Valid ∧ n'.decoder = n.decoder ∧ n'.input = n.input ∧
      n'.reads = reads := by
  refine ⟨{ n with
      buffer := parserReadHandler hcProtocolMaxLen read
      pointer := 0
      reads := reads }, ?_, ⟨h.scanning, Nat.zero_le _⟩, rfl, ?_, rfl⟩
  · rw [Node.step, if_pos hlast, hreads]
  · rw [Node.input, Node.input, hlast, List.drop_length, hreads, List.flatMap_cons, List.nil_append]
    rfl

/-- Every round keeps the node valid and brings it closer to the end of its input. -/
theorem Node.Valid.step (h : n.Valid) (hstep : n.step stack = some n') :
    n'.Valid ∧ n'.measure < n.measure := by
  by_cases hlast : n.pointer = n.buffer.length
  · cases hreads : n.reads with
    | nil => simp [Node.step, if_pos hlast, hreads] at hstep
    | cons read reads =>
      obtain ⟨n₁, hstep₁, hvalid, hdecoder, hinput, hrest⟩ := h.step_read stack hlast hreads
      obtain rfl := Option.some.inj (hstep₁.symm.trans hstep)
      refine ⟨hvalid, ?_⟩
      rw [Node.measure, Node.measure, hinput, hdecoder, hrest, hreads, List.length_cons]
      omega
  · obtain ⟨n₁, hstep₁, hvalid, hbuffer, hreads, hmove⟩ :=
      h.step_feed stack (Nat.lt_of_le_of_ne h.pointer hlast)
    obtain rfl := Option.some.inj (hstep₁.symm.trans hstep)
    refine ⟨hvalid, ?_⟩
    have hrank : n₁.decoder.rank ≤ 2 := ParserState.rank_le _ _
    have hpointer := h.pointer
    simp only [Node.measure, Node.input, hbuffer, hreads, List.length_append, List.length_drop]
    omega

theorem Node.Valid.run (stackAt : ℕ → StackBytes) (h : n.Valid) (fuel : ℕ) :
    (n.run stackAt fuel).Valid := by
  induction fuel generalizing n stackAt with
  | zero => exact h
  | succ fuel ih =>
    rw [Node.run]
    cases hstep : n.step (stackAt 0) with
    | none => exact h
    | some n' => exact ih _ (h.step hstep).1

/-- A node that waits has parsed all it was given. -/
theorem Node.Valid.waiting (h : n.Valid) (hwaits : n.step stack = none) :
    n.pointer = n.buffer.length ∧ n.reads = [] := by
  by_cases hlast : n.pointer = n.buffer.length
  · cases hreads : n.reads with
    | nil => exact ⟨hlast, rfl⟩
    | cons read reads =>
      obtain ⟨n', hstep, -⟩ := h.step_read stack hlast hreads
      rw [hstep] at hwaits
      cases hwaits
  · obtain ⟨n', hstep, -⟩ :=
      h.step_feed stack (Nat.lt_of_le_of_ne h.pointer hlast)
    rw [hstep] at hwaits
    cases hwaits

/-- With as many rounds as the measure the node comes to wait for the device. -/
theorem Node.Valid.run_waits (stackAt : ℕ → StackBytes) (h : n.Valid) {fuel : ℕ}
    (hfuel : n.measure ≤ fuel) :
    (n.run stackAt fuel).pointer = (n.run stackAt fuel).buffer.length ∧
      (n.run stackAt fuel).reads = [] := by
  induction fuel generalizing n stackAt with
  | zero =>
    cases hstep : n.step (stackAt 0) with
    | none => exact h.waiting hstep
    | some n' =>
      have hfalls := (h.step hstep).2
      omega
  | succ fuel ih =>
    rw [Node.run]
    cases hstep : n.step (stackAt 0) with
    | none => exact h.waiting hstep
    | some n' =>
      obtain ⟨hvalid, hfalls⟩ := h.step hstep
      exact ih _ hvalid (by omega)

/-- A byte in the buffer is taken after as many rounds as the rank and one more. -/
theorem Node.Valid.takes_byte (stackAt : ℕ → StackBytes) (h : n.Valid)
    (hin : n.pointer < n.buffer.length) {r : ℕ} (hrank : n.decoder.rank ≤ r) :
    ∃ m ≤ r + 1, (n.run stackAt m).pointer = n.pointer + 1 ∧
      (n.run stackAt m).buffer = n.buffer ∧ (n.run stackAt m).reads = n.reads := by
  induction r generalizing n stackAt with
  | zero =>
    obtain ⟨n₁, hstep, -, hbuffer, hreads, hmove⟩ := h.step_feed (stackAt 0) hin
    rcases hmove with htake | ⟨-, hfalls⟩
    · refine ⟨1, Nat.le_refl 1, ?_⟩
      rw [Node.run, hstep]
      exact ⟨htake, hbuffer, hreads⟩
    · omega
  | succ r ih =>
    obtain ⟨n₁, hstep, hvalid, hbuffer, hreads, hmove⟩ := h.step_feed (stackAt 0) hin
    rcases hmove with htake | ⟨hhold, hfalls⟩
    · refine ⟨1, Nat.le_add_left 1 _, ?_⟩
      rw [Node.run, hstep]
      exact ⟨htake, hbuffer, hreads⟩
    · obtain ⟨m, hm, hpointer, hbuffer', hreads'⟩ := ih (fun round => stackAt (round + 1)) hvalid
        (by rw [hhold, hbuffer]; exact hin) (by omega)
      refine ⟨m + 1, Nat.succ_le_succ hm, ?_⟩
      rw [Node.run, hstep]
      exact ⟨by rw [hpointer, hhold], by rw [hbuffer', hbuffer], by rw [hreads', hreads]⟩

/-- In every state of every run the tokens and the pointer keep their bounds and a byte in the
buffer is taken within three rounds; with three rounds for each byte and one for each read the
whole input is parsed. -/
theorem parser_progress (stackAt : ℕ → StackBytes) (reads : List (List UInt8)) (fuel : ℕ) :
    ((Node.run stackAt fuel { reads := reads }).decoder.scanner.token.value.length ≤ 1023 ∧
        ∀ msg ∈ (Node.run stackAt fuel { reads := reads }).decoder.published,
          msg.value.length ≤ 1023) ∧
      (Node.run stackAt fuel { reads := reads }).pointer ≤
        (Node.run stackAt fuel { reads := reads }).buffer.length ∧
      ((Node.run stackAt fuel { reads := reads }).pointer <
          (Node.run stackAt fuel { reads := reads }).buffer.length →
        ∀ later : ℕ → StackBytes, ∃ m ≤ 3,
          (Node.run later m (Node.run stackAt fuel { reads := reads })).pointer =
              (Node.run stackAt fuel { reads := reads }).pointer + 1 ∧
            (Node.run later m (Node.run stackAt fuel { reads := reads })).buffer =
              (Node.run stackAt fuel { reads := reads }).buffer ∧
            (Node.run later m (Node.run stackAt fuel { reads := reads })).reads =
              (Node.run stackAt fuel { reads := reads }).reads) ∧
      (3 * (reads.flatMap (parserReadHandler hcProtocolMaxLen)).length + reads.length ≤ fuel →
        (Node.run stackAt fuel { reads := reads }).pointer =
            (Node.run stackAt fuel { reads := reads }).buffer.length ∧
          (Node.run stackAt fuel { reads := reads }).reads = []) := by
  have hstart := Node.valid_start reads
  have hvalid := hstart.run stackAt fuel
  refine ⟨hvalid.scanning.length_le, hvalid.pointer, fun hin later => ?_, fun hfuel => ?_⟩
  · exact hvalid.takes_byte later hin (ParserState.rank_le _ _)
  · exact hstart.run_waits stackAt hfuel

end FastLivo.Chcnav
