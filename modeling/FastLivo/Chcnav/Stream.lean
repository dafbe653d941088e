import FastLivo.Chcnav.Parser
import FastLivo.Lib.Feed
import Mathlib.Data.List.GetD

/-!
# Streams of frames

The parser of a stream of HC frames between garbage publishes exactly the frames, however
the stream is cut into reads.
-/

namespace FastLivo.Chcnav

open Lib

/-! ## The stream -/

def longSync : List UInt8 := [0xaa, 0xcc, 0x48, 0x43]

def shortSync : List UInt8 := [0xaa, 0x55, 0x48, 0x43]

/-- The length field at bytes 4 and 5. -/
def lengthField (f : List UInt8) : Nat := (f.getD 5 0).toNat * 256 + (f.getD 4 0).toNat

/-- A frame with a sync word and so many bytes besides its payload. -/
structure WellFormed (sync : List UInt8) (overhead : Nat) (f : List UInt8) : Prop where
  sync : sync <+: f
  length : f.length = overhead + lengthField f
  fits : f.length ≤ 1023

/-- HC frames, long and short. -/
def IsFrame : MsgType → List UInt8 → Prop
  | .cgiHeader => WellFormed longSync 26
  | .cgiShortHeader => WellFormed shortSync 12
  | .nmea => fun _ => False

/-- Bytes without a dollar sign and without a sync word. -/
structure Garbage (g : List UInt8) : Prop where
  dollar : 0x24 ∉ g
  long : ¬longSync <:+: g
  short : ¬shortSync <:+: g

/-- Frames with garbage before, between and after them. -/
inductive Stream : List UInt8 → List (MsgType × List UInt8) → Prop
  | tail {g : List UInt8} : Garbage g → Stream g []
  | frame {g f rest : List UInt8} {type : MsgType} {frames : List (MsgType × List UInt8)} :
      Garbage g → IsFrame type f → Stream rest frames →
      Stream (g ++ (f ++ rest)) ((type, f) :: frames)

/-- Kind and bytes of a message. -/
def SingleMsg.frame (m : SingleMsg) : MsgType × List UInt8 := (m.msgType, m.value)

/-! ## One character -/

/-- The parser inside a scan. -/
def mid (state : ParserState) (specifiedLen : Nat) (value : List UInt8)
    (published : List SingleMsg) : Decoder :=
  ⟨⟨none, state, specifiedLen, ⟨.none, value⟩⟩, published⟩

variable {stack : StackBytes} {x y : ParserState} {k : Nat} {v w : List UInt8}
  {p : List SingleMsg} {c : UInt8} {t : Decoder}

/-- A handler that goes on. -/
theorem scanChar_quiet {k' : Nat} {move : Bool}
    (h : Scanner.handler stack ⟨none, x, k, ⟨.none, v⟩⟩ c = (⟨none, y, k', ⟨.none, v⟩⟩, move))
    (hlen : v.length < 1023) :
    Scanner.scanChar stack ⟨none, x, k, ⟨.none, v⟩⟩ c =
      (⟨none, y, k', ⟨.none, v ++ if move then [c] else []⟩⟩, move) := by
  have hfit : v.length + move.toNat < hcProtocolMaxLen := by
    have hmove := Bool.toNat_le move
    rw [hcProtocolMaxLen]
    omega
  simp only [Scanner.scanChar, h, if_pos hfit]

theorem feed_quiet {k' : Nat} {move : Bool}
    (h : Scanner.handler stack ⟨none, x, k, ⟨.none, v⟩⟩ c = (⟨none, y, k', ⟨.none, v⟩⟩, move))
    (hlen : v.length < 1023) :
    (mid x k v p).feed stack c = (mid y k' (v ++ if move then [c] else []) p, move) := by
  simp only [Decoder.feed, mid, scanChar_quiet h hlen, if_true]

theorem feed_move {k' : Nat}
    (h : Scanner.handler stack ⟨none, x, k, ⟨.none, v⟩⟩ c = (⟨none, y, k', ⟨.none, v⟩⟩, true))
    (hlen : v.length < 1023) : (mid x k v p).feed stack c = (mid y k' (v ++ [c]) p, true) :=
  feed_quiet h hlen

theorem feed_stay {k' : Nat}
    (h : Scanner.handler stack ⟨none, x, k, ⟨.none, v⟩⟩ c = (⟨none, y, k', ⟨.none, v⟩⟩, false))
    (hlen : v.length < 1023) : (mid x k v p).feed stack c = (mid y k' v p, false) := by
  have hquiet := feed_quiet (p := p) h hlen
  rwa [if_neg Bool.false_ne_true, List.append_nil] at hquiet

/-- A handler that fails. -/
theorem scanChar_fail {s : Scanner} {d : Description}
    (h : s.handler stack c = (s.fail d, false)) (hlen : s.token.value.length < 1023) :
    s.scanChar stack c = (s.fail d, false) := by
  have hfit : (s.fail d).token.value.length + false.toNat < hcProtocolMaxLen :=
    Nat.lt_succ_of_lt hlen
  simp only [Scanner.scanChar, h, if_pos hfit, if_neg Bool.false_ne_true, List.append_nil]

/-- The node goes back to the start. -/
theorem feed_fail {s : Scanner} {d : Description} {move : Bool}
    (h : s.handler stack c = (s.fail d, move)) (hlen : s.token.value.length < 1023) :
    Decoder.feed stack ⟨s, p⟩ c = (mid .s0 s.specifiedLen [] p, move) := by
  have hfit : s.token.value.length + move.toNat < hcProtocolMaxLen := by
    have hmove := Bool.toNat_le move
    rw [hcProtocolMaxLen]
    omega
  have hlength : (s.fail d).token.value = s.token.value := rfl
  simp only [Decoder.feed, Scanner.scanChar, h, hlength, if_pos hfit]
  rfl

/-- A handler that completes a token with the character. -/
theorem scanChar_accept {s s' : Scanner} {type : TokenType}
    (h : s.handler stack c = (s'.accept type, true)) (hlen : s'.token.value.length < 1023) :
    s.scanChar stack c =
      ({ s' with state := .s0, token := ⟨type, s'.token.value ++ [c]⟩ }, true) := by
  have hfit : (s'.accept type).token.value.length + true.toNat < hcProtocolMaxLen :=
    Nat.succ_lt_succ hlen
  simp only [Scanner.scanChar, h, if_pos hfit, if_true]
  rfl

/-- The message of the token is published. -/
theorem feed_accept {s s' : Scanner} {type : TokenType} {msg : SingleMsg}
    (h : s.handler stack c = (s'.accept type, true)) (hlen : s'.token.value.length < 1023)
    (herror : s'.error = none) (hmsg : Token.singleMsg ⟨type, s'.token.value ++ [c]⟩ = some msg) :
    Decoder.feed stack ⟨s, p⟩ c = (mid .s0 s'.specifiedLen [] (p ++ [msg]), true) := by
  have htype : type ≠ .none := by
    rintro rfl
    cases hmsg
  simp only [Decoder.feed, scanChar_accept h hlen, if_neg htype]
  simp only [Decoder.handleToken, hmsg, Decoder.enterScan, herror]
  rfl

/-! ## Before a sync word -/

/-- States before a sync word is complete, and what of it has been read. -/
inductive Hunting : ParserState → List UInt8 → Prop
  | s0 : Hunting .s0 []
  | s1 : Hunting .s1 [0xaa]
  | s2 : Hunting .s2 [0xaa, 0xcc]
  | s3 : Hunting .s3 [0xaa, 0xcc, 0x48]
  | s12 : Hunting .s12 [0xaa, 0x55]
  | s13 : Hunting .s13 [0xaa, 0x55, 0x48]

theorem Hunting.length_le (h : Hunting x w) : w.length ≤ 3 := by
  cases h <;> decide

/-- The first character of a sync word. -/
theorem start_hit : (mid .s0 k [] p).feed stack 0xaa = (mid .s1 k [0xaa] p, true) :=
  feed_move (v := []) rfl (Nat.zero_lt_succ _)

/-- Any other character but a dollar sign is dropped. -/
theorem start_miss (haa : c ≠ 0xaa) (hdollar : c ≠ 0x24) :
    (mid .s0 k [] p).feed stack c = (mid .s0 k [] p, true) := by
  refine feed_fail (d := .errorChar c) ?_ (Nat.zero_lt_succ _)
  simp only [Scanner.handler, Scanner.dealS0, if_neg haa.symm, if_neg hdollar.symm]

/-- What the state expects next. -/
def expected : ParserState → List UInt8
  | .s1 => [0xcc, 0x55]
  | .s2 | .s12 => [0x48]
  | .s3 | .s13 => [0x43]
  | _ => [0xaa]

/-- A character out of place is looked at again from the start. -/
theorem hunting_miss (h : Hunting x w) (hx : x ≠ .s0) (hc : c ∉ expected x) :
    (mid x k w p).feed stack c = (mid .s0 k [] p, false) := by
  refine feed_fail (d := .errorChar c) ?_ (Nat.lt_of_le_of_lt h.length_le (by decide))
  cases h <;> simp_all [expected, Scanner.handler, Scanner.dealS1, Scanner.dealS2, Scanner.dealS3,
    Scanner.dealS12, Scanner.dealS13, Scanner.expect, eq_comm]

/-- A character in place completes the sync word or goes on with it. -/
theorem hunting_hit (h : Hunting x w) (hc : c ∈ expected x) (hlong : w ++ [c] ≠ longSync)
    (hshort : w ++ [c] ≠ shortSync) :
    ∃ y, Hunting y (w ++ [c]) ∧
      ∀ stack, (mid x k w p).feed stack c = (mid y k (w ++ [c]) p, true) := by
  cases h with
  | s0 =>
    obtain rfl := List.mem_singleton.mp hc
    exact ⟨.s1, .s1, fun _ => start_hit⟩
  | s1 =>
    rcases List.mem_pair.mp hc with rfl | rfl
    · exact ⟨.s2, .s2, fun _ => feed_move rfl (by decide)⟩
    · exact ⟨.s12, .s12, fun _ => feed_move rfl (by decide)⟩
  | s2 =>
    obtain rfl := List.mem_singleton.mp hc
    exact ⟨.s3, .s3, fun _ => feed_move rfl (by decide)⟩
  | s12 =>
    obtain rfl := List.mem_singleton.mp hc
    exact ⟨.s13, .s13, fun _ => feed_move rfl (by decide)⟩
  | s3 =>
    obtain rfl := List.mem_singleton.mp hc
    exact absurd rfl hlong
  | s13 =>
    obtain rfl := List.mem_singleton.mp hc
    exact absurd rfl hshort

/-- From the start, a character that is no dollar sign. -/
theorem start_step (hdollar : c ≠ 0x24) :
    ∃ y w', Hunting y w' ∧ w' <:+ [c] ∧
      Consumes Decoder.feed (mid .s0 k [] p) [c] (mid y k w' p) := by
  by_cases haa : c = 0xaa
  · subst haa
    exact ⟨.s1, _, .s1, List.suffix_rfl, .take (fun _ => start_hit) (.nil _)⟩
  · exact ⟨.s0, [], .s0, List.nil_suffix, .take (fun _ => start_miss haa hdollar) (.nil _)⟩

/-- Before a sync word every character leads to a state before a sync word; what has been
read of it is the end of what came. -/
theorem hunting_step (h : Hunting x w) (hdollar : c ≠ 0x24) (hlong : w ++ [c] ≠ longSync)
    (hshort : w ++ [c] ≠ shortSync) :
    ∃ y w', Hunting y w' ∧ w' <:+ w ++ [c] ∧
      Consumes Decoder.feed (mid x k w p) [c] (mid y k w' p) := by
  by_cases hc : c ∈ expected x
  · obtain ⟨y, hy, hfeed⟩ := hunting_hit (k := k) (p := p) h hc hlong hshort
    exact ⟨y, _, hy, List.suffix_rfl, .take hfeed (.nil _)⟩
  · obtain ⟨y, w', hy, hsuffix, hstart⟩ := start_step (k := k) (p := p) hdollar
    by_cases hx : x = .s0
    · subst hx
      cases h
      exact ⟨y, w', hy, hsuffix, hstart⟩
    · exact ⟨y, w', hy, hsuffix.trans (List.suffix_append w [c]),
        .hold (fun _ => hunting_miss h hx hc) hstart⟩

/-- Garbage is read without a message. -/
theorem hunting_garbage {g : List UInt8} (h : Hunting x w) (hdollar : 0x24 ∉ g)
    (hlong : ¬longSync <:+: w ++ g) (hshort : ¬shortSync <:+: w ++ g) :
    ∃ y w', Hunting y w' ∧ Consumes Decoder.feed (mid x k w p) g (mid y k w' p) := by
  induction g generalizing x w with
  | nil => exact ⟨x, w, h, .nil _⟩
  | cons c g ih =>
    have hsplit : w ++ c :: g = w ++ [c] ++ g := by rw [List.append_assoc, List.singleton_append]
    rw [hsplit] at hlong hshort
    obtain ⟨hc, hg⟩ := not_or.mp (mt List.mem_cons.mpr hdollar)
    obtain ⟨y, w', hy, hsuffix, hstep⟩ := hunting_step (k := k) (p := p) h
      (Ne.symm hc) (fun heq => hlong (heq ▸ List.infix_append' [] _ g))
      (fun heq => hshort (heq ▸ List.infix_append' [] _ g))
    -- What is left of the word is an end of it, so the rest has no sync word either.
    have hrest : w' ++ g <:+ w ++ [c] ++ g := by
      obtain ⟨pre, hpre⟩ := hsuffix
      exact ⟨pre, by rw [← List.append_assoc, hpre]⟩
    obtain ⟨z, w'', hz, hconsumes⟩ := ih hy hg (fun hin => hlong (hin.trans hrest.isInfix))
      (fun hin => hshort (hin.trans hrest.isInfix))
    exact ⟨z, w'', hz, hstep.append hconsumes⟩

/-- The first character of a frame is taken as such, whatever garbage came before. -/
theorem hunting_sync (h : Hunting x w) :
    Consumes Decoder.feed (mid x k w p) [0xaa] (mid .s1 k [0xaa] p) := by
  by_cases hx : x = .s0
  · subst hx
    cases h
    exact .take (fun _ => start_hit) (.nil _)
  · refine .hold (fun _ => hunting_miss h hx ?_) (.take (fun _ => start_hit) (.nil _))
    cases h <;> first | exact absurd rfl hx | decide

/-! ## Inside a frame -/

/-- A state that counts characters, the state after it, and what that one counts. -/
def Counts (x y : ParserState) (len : List UInt8 → Nat) : Prop :=
  ∀ stack k v c, Scanner.handler stack ⟨none, x, k, ⟨.none, v⟩⟩ c =
    if 0 < k then (⟨none, x, k - 1, ⟨.none, v⟩⟩, true) else (⟨none, y, len v, ⟨.none, v⟩⟩, false)

theorem counts_s4 : Counts .s4 .s5 fun _ => 2 := fun _ _ _ _ => rfl

theorem counts_s5 : Counts .s5 .s6 fun _ => 2 := fun _ _ _ _ => rfl

theorem counts_s6 : Counts .s6 .s7 fun _ => 4 := fun _ _ _ _ => rfl

theorem counts_s7 : Counts .s7 .s8 fun _ => 4 := fun _ _ _ _ => rfl

theorem counts_s8 : Counts .s8 .s9 fun _ => 4 := fun _ _ _ _ => rfl

theorem counts_s9 : Counts .s9 .s10 fun v => lengthField v + 4 := fun _ _ _ _ => rfl

theorem counts_s14 : Counts .s14 .s15 fun _ => 2 := fun _ _ _ _ => rfl

theorem counts_s15 : Counts .s15 .s16 fun v => lengthField v + 4 := fun _ _ _ _ => rfl

/-- A counting state takes its characters, and gives way at the one that follows. -/
theorem Counts.phase {len : List UInt8 → Nat} (h : Counts x y len) {bs rest : List UInt8}
    (hk : bs.length = k) (hrest : rest ≠ []) (hfit : v.length + bs.length < 1023)
    (ht : Consumes Decoder.feed (mid y (len (v ++ bs)) (v ++ bs) p) rest t) :
    Consumes Decoder.feed (mid x k v p) (bs ++ rest) t := by
  subst hk
  induction bs generalizing v with
  | nil =>
    obtain ⟨c, rest, rfl⟩ := List.exists_cons_of_ne_nil hrest
    rw [List.append_nil] at ht
    exact .hold (fun stack => feed_stay (h stack 0 v c) hfit) ht
  | cons b bs ih =>
    rw [List.length_cons] at hfit
    refine .take (fun stack => feed_move (h stack (bs.length + 1) v b) (by omega)) (ih ?_ ?_)
    · rw [List.length_append, List.length_singleton]
      omega
    · rwa [List.append_assoc]

/-- A state that accepts a token with the last of its characters. -/
def CountsAccept (x : ParserState) (type : TokenType) : Prop :=
  ∀ stack k v c, Scanner.handler stack ⟨none, x, k, ⟨.none, v⟩⟩ c =
    Scanner.countAccept ⟨none, x, k, ⟨.none, v⟩⟩ type

theorem CountsAccept.phase {type : TokenType} (h : CountsAccept x type) {bs : List UInt8}
    (hk : bs.length = k) (hbs : bs ≠ []) (hfit : v.length + bs.length ≤ 1023) {msg : SingleMsg}
    (hmsg : Token.singleMsg ⟨type, v ++ bs⟩ = some msg) :
    Consumes Decoder.feed (mid x k v p) bs (mid .s0 0 [] (p ++ [msg])) := by
  subst hk
  induction bs generalizing v with
  | nil => exact absurd rfl hbs
  | cons b bs ih =>
    rw [List.length_cons] at hfit
    have hv : v.length < 1023 := by omega
    cases bs with
    | nil =>
      have haccepts (stack : StackBytes) : Scanner.handler stack ⟨none, x, 1, ⟨.none, v⟩⟩ b =
          ((⟨none, x, 0, ⟨.none, v⟩⟩ : Scanner).accept type, true) := h stack 1 v b
      exact .take (fun stack => feed_accept (haccepts stack) hv rfl hmsg) (.nil _)
    | cons b' bs =>
      have hgoes (stack : StackBytes) :
          Scanner.handler stack ⟨none, x, (b' :: bs).length + 1, ⟨.none, v⟩⟩ b =
            (⟨none, x, (b' :: bs).length, ⟨.none, v⟩⟩, true) := h stack _ v b
      refine .take (fun stack => feed_move (hgoes stack) hv) (ih (List.cons_ne_nil _ _) ?_ ?_)
      · rw [List.length_append, List.length_singleton]
        omega
      · rwa [List.append_assoc]

theorem accepts_s10 : CountsAccept .s10 .hcMsg := fun _ _ _ _ => rfl

theorem accepts_s16 : CountsAccept .s16 .hcShortMsg := fun _ _ _ _ => rfl

theorem exists_append_of_le {l : List UInt8} {n : Nat} (h : n ≤ l.length) :
    ∃ a b, l = a ++ b ∧ a.length = n :=
  ⟨l.take n, l.drop n, (List.take_append_drop n l).symm, List.length_take_of_le h⟩

/-- The length field lies in the first six bytes. -/
theorem lengthField_append {a b : List UInt8} (h : 6 ≤ a.length) :
    lengthField (a ++ b) = lengthField a := by
  unfold lengthField
  rw [List.getD_append _ _ _ _ (by omega), List.getD_append _ _ _ _ (by omega)]

/-- The header of a long frame in the parts that the states count, and the rest. -/
theorem WellFormed.long_parts {f : List UInt8} (h : WellFormed longSync 26 f) :
    ∃ b₄ b₅ b₆ b₇ b₈ b₉ body : List UInt8,
      f = longSync ++ (b₄ ++ (b₅ ++ (b₆ ++ (b₇ ++ (b₈ ++ (b₉ ++ body)))))) ∧
      b₄.length = 2 ∧ b₅.length = 2 ∧ b₆.length = 2 ∧ b₇.length = 4 ∧ b₈.length = 4 ∧
      b₉.length = 4 ∧ body.length = lengthField f + 4 := by
  obtain ⟨rest, hrest⟩ := h.sync
  have hlength := h.length
  rw [← hrest, List.length_append, hrest, show longSync.length = 4 from rfl] at hlength
  obtain ⟨b₄, r₄, rfl, h₄⟩ := exists_append_of_le (show 2 ≤ rest.length by omega)
  rw [List.length_append] at hlength
  obtain ⟨b₅, r₅, rfl, h₅⟩ := exists_append_of_le (show 2 ≤ r₄.length by omega)
  rw [List.length_append] at hlength
  obtain ⟨b₆, r₆, rfl, h₆⟩ := exists_append_of_le (show 2 ≤ r₅.length by omega)
  rw [List.length_append] at hlength
  obtain ⟨b₇, r₇, rfl, h₇⟩ := exists_append_of_le (show 4 ≤ r₆.length by omega)
  rw [List.length_append] at hlength
  obtain ⟨b₈, r₈, rfl, h₈⟩ := exists_append_of_le (show 4 ≤ r₇.length by omega)
  rw [List.length_append] at hlength
  obtain ⟨b₉, body, rfl, h₉⟩ := exists_append_of_le (show 4 ≤ r₈.length by omega)
  rw [List.length_append] at hlength
  exact ⟨b₄, b₅, b₆, b₇, b₈, b₉, body, hrest.symm, h₄, h₅, h₆, h₇, h₈, h₉, by omega⟩

/-- The length that a counting state reads from the header is that of the frame. -/
theorem lengthField_header {f header body : List UInt8} (hf : f = header ++ body)
    (hheader : 6 ≤ header.length) : lengthField header = lengthField f := by
  rw [hf, lengthField_append hheader]

/-- A long frame after its first character. -/
theorem long_frame {f : List UInt8} (h : WellFormed longSync 26 f) :
    ∃ m : SingleMsg, m.frame = (.cgiHeader, f) ∧
      Consumes Decoder.feed (mid .s1 k [0xaa] p) f.tail (mid .s0 0 [] (p ++ [m])) := by
  obtain ⟨b₄, b₅, b₆, b₇, b₈, b₉, body, hf, h₄, h₅, h₆, h₇, h₈, h₉, hbody⟩ := h.long_parts
  have hsync : longSync.length = 4 := rfl
  have hassoc : f = longSync ++ b₄ ++ b₅ ++ b₆ ++ b₇ ++ b₈ ++ b₉ ++ body := by
    simp only [hf, List.append_assoc]
  have hlen := lengthField_header hassoc (by simp only [List.length_append]; omega)
  have hfits := h.fits
  have hne : body ≠ [] := List.ne_nil_of_length_pos (by omega)
  refine ⟨⟨.cgiHeader, .cgi (Token.msgId ⟨.hcMsg, f⟩), f⟩, rfl, ?_⟩
  have htail : f.tail = 0xcc :: 0x48 :: 0x43 ::
      (b₄ ++ (b₅ ++ (b₆ ++ (b₇ ++ (b₈ ++ (b₉ ++ body)))))) := by
    rw [hf]
    rfl
  rw [htail]
  rw [hassoc] at hfits
  simp only [List.length_append] at hfits
  -- The rest of the sync word, then the states that count, then the body.
  refine .take (fun _ => feed_move (v := [0xaa]) rfl (by decide)) ?_
  refine .take (fun _ => feed_move (v := [0xaa, 0xcc]) rfl (by decide)) ?_
  refine .take (fun _ => feed_move (v := [0xaa, 0xcc, 0x48]) rfl (by decide)) ?_
  refine counts_s4.phase (v := longSync) h₄ (by simp [hne]) (by omega) ?_
  refine counts_s5.phase h₅ (by simp [hne]) (by simp only [List.length_append]; omega) ?_
  refine counts_s6.phase h₆ (by simp [hne]) (by simp only [List.length_append]; omega) ?_
  refine counts_s7.phase h₇ (by simp [hne]) (by simp only [List.length_append]; omega) ?_
  refine counts_s8.phase h₈ (by simp [hne]) (by simp only [List.length_append]; omega) ?_
  refine counts_s9.phase h₉ hne (by simp only [List.length_append]; omega) ?_
  rw [hlen]
  refine accepts_s10.phase hbody hne (by simp only [List.length_append]; omega) ?_
  rw [← hassoc]
  rfl

/-- The header of a short frame in the parts that the states count, and the rest. -/
theorem WellFormed.short_parts {f : List UInt8} (h : WellFormed shortSync 12 f) :
    ∃ b₁₄ b₁₅ body : List UInt8, f = shortSync ++ (b₁₄ ++ (b₁₅ ++ body)) ∧
      b₁₄.length = 2 ∧ b₁₅.length = 2 ∧ body.length = lengthField f + 4 := by
  obtain ⟨rest, hrest⟩ := h.sync
  have hlength := h.length
  rw [← hrest, List.length_append, hrest, show shortSync.length = 4 from rfl] at hlength
  obtain ⟨b₁₄, r₁₄, rfl, h₁₄⟩ := exists_append_of_le (show 2 ≤ rest.length by omega)
  rw [List.length_append] at hlength
  obtain ⟨b₁₅, body, rfl, h₁₅⟩ := exists_append_of_le (show 2 ≤ r₁₄.length by omega)
  rw [List.length_append] at hlength
  exact ⟨b₁₄, b₁₅, body, hrest.symm, h₁₄, h₁₅, by omega⟩

/-- A short frame after its first character. -/
theorem short_frame {f : List UInt8} (h : WellFormed shortSync 12 f) :
    ∃ m : SingleMsg, m.frame = (.cgiShortHeader, f) ∧
      Consumes Decoder.feed (mid .s1 k [0xaa] p) f.tail (mid .s0 0 [] (p ++ [m])) := by
  obtain ⟨b₁₄, b₁₅, body, hf, h₁₄, h₁₅, hbody⟩ := h.short_parts
  have hsync : shortSync.length = 4 := rfl
  have hassoc : f = shortSync ++ b₁₄ ++ b₁₅ ++ body := by simp only [hf, List.append_assoc]
  have hlen := lengthField_header hassoc (by simp only [List.length_append]; omega)
  have hfits := h.fits
  have hne : body ≠ [] := List.ne_nil_of_length_pos (by omega)
  refine ⟨⟨.cgiShortHeader, .cgi (Token.msgId ⟨.hcShortMsg, f⟩), f⟩, rfl, ?_⟩
  have htail : f.tail = 0x55 :: 0x48 :: 0x43 :: (b₁₄ ++ (b₁₅ ++ body)) := by
    rw [hf]
    rfl
  rw [htail]
  rw [hassoc] at hfits
  simp only [List.length_append] at hfits
  refine .take (fun _ => feed_move (v := [0xaa]) rfl (by decide)) ?_
  refine .take (fun _ => feed_move (v := [0xaa, 0x55]) rfl (by decide)) ?_
  refine .take (fun _ => feed_move (v := [0xaa, 0x55, 0x48]) rfl (by decide)) ?_
  refine counts_s14.phase (v := shortSync) h₁₄ (by simp [hne]) (by omega) ?_
  refine counts_s15.phase h₁₅ hne (by simp only [List.length_append]; omega) ?_
  rw [hlen]
  refine accepts_s16.phase hbody hne (by simp only [List.length_append]; omega) ?_
  rw [← hassoc]
  rfl

/-- Both kinds start with the same character. -/
theorem frame_head {type : MsgType} {f : List UInt8} (h : IsFrame type f) : f = 0xaa :: f.tail := by
  cases type with
  | nmea => exact h.elim
  | cgiHeader =>
    obtain ⟨rest, rfl⟩ := WellFormed.sync h
    rfl
  | cgiShortHeader =>
    obtain ⟨rest, rfl⟩ := WellFormed.sync h
    rfl

/-- A frame after garbage is published with its bytes. -/
theorem frame_parsed {type : MsgType} {f : List UInt8} (hx : Hunting x w) (h : IsFrame type f) :
    ∃ m : SingleMsg, m.frame = (type, f) ∧
      Consumes Decoder.feed (mid x k w p) f (mid .s0 0 [] (p ++ [m])) := by
  have hframe : ∃ m : SingleMsg, m.frame = (type, f) ∧
      Consumes Decoder.feed (mid .s1 k [0xaa] p) f.tail (mid .s0 0 [] (p ++ [m])) := by
    cases type with
    | nmea => exact h.elim
    | cgiHeader => exact long_frame h
    | cgiShortHeader => exact short_frame h
  obtain ⟨m, hm, htail⟩ := hframe
  refine ⟨m, hm, ?_⟩
  rw [frame_head h]
  exact (hunting_sync hx).append htail

/-- The parser takes a whole stream and publishes its frames. -/
theorem stream_consumed {bytes : List UInt8} {frames : List (MsgType × List UInt8)}
    (h : Stream bytes frames) (k : Nat) (p : List SingleMsg) :
    ∃ t, Consumes Decoder.feed (mid .s0 k [] p) bytes t ∧
      t.published.map SingleMsg.frame = p.map SingleMsg.frame ++ frames := by
  induction h generalizing k p with
  | tail hg =>
    obtain ⟨y, w', -, hgarbage⟩ := hunting_garbage (k := k) (p := p) .s0 hg.dollar
      hg.long hg.short
    exact ⟨_, hgarbage, (List.append_nil _).symm⟩
  | frame hg hf hrest ih =>
    obtain ⟨y, w', hy, hgarbage⟩ := hunting_garbage (k := k) (p := p) .s0 hg.dollar
      hg.long hg.short
    obtain ⟨m, hm, hframe⟩ := frame_parsed (k := k) (p := p) hy hf
    obtain ⟨t, hrest, hpublished⟩ := ih 0 (p ++ [m])
    refine ⟨t, hgarbage.append (hframe.append hrest), ?_⟩
    rw [hpublished, List.map_append, List.append_assoc, ← hm]
    rfl

/-! ## Reads -/

/-- What the node has yet to parse. -/
def Node.unread (n : Node) : List UInt8 := n.buffer.drop n.pointer ++ n.reads.flatten

/-- The pointer is in the filled part of the buffer, and every read is accepted. -/
structure Node.Ready (n : Node) : Prop where
  pointer : n.pointer ≤ n.buffer.length
  reads : ∀ read ∈ n.reads, read ≠ [] ∧ read.length ≤ hcProtocolMaxLen

/-- The first rounds lead from one node to the other, whatever number of rounds follow. -/
def Runs (stack : Nat → StackBytes) (rounds : Nat) (n n' : Node) : Prop :=
  ∀ j, n.run stack (j + rounds) = n'.run (fun round => stack (round + rounds)) j

variable {stackAt : Nat → StackBytes} {n n' n'' : Node}

theorem Runs.refl (stackAt : Nat → StackBytes) (n : Node) : Runs stackAt 0 n n := fun _ => rfl

theorem Runs.trans {i j : Nat} (h : Runs stackAt i n n')
    (h' : Runs (fun round => stackAt (round + i)) j n' n'') : Runs stackAt (j + i) n n'' := by
  intro rounds
  rw [← Nat.add_assoc, h, h']
  simp only [Nat.add_assoc]

theorem Runs.step (h : n.step (stackAt 0) = some n') : Runs stackAt 1 n n' :=
  fun j => by rw [Node.run, h]

/-- The next character is brought into the buffer. -/
theorem Node.Ready.refill (stackAt : Nat → StackBytes) (h : n.Ready) {bs : List UInt8}
    (hunread : n.unread = c :: bs) :
    ∃ i n', Runs stackAt i n n' ∧ n'.Ready ∧ n'.decoder = n.decoder ∧ n'.unread = c :: bs ∧
      n'.pointer < n'.buffer.length := by
  by_cases hlast : n.pointer = n.buffer.length
  · obtain ⟨decoder, buffer, pointer, reads⟩ := n
    obtain rfl : pointer = buffer.length := hlast
    cases reads with
    | nil => simp [Node.unread] at hunread
    | cons read reads =>
      obtain ⟨⟨hne, hfit⟩, hreads⟩ := List.forall_mem_cons.mp h.reads
      have hpos : 0 < read.length := List.length_pos_iff.mpr hne
      have haccept : parserReadHandler hcProtocolMaxLen read = read := if_pos ⟨hfit, hpos⟩
      refine ⟨1, ⟨decoder, read, 0, reads⟩, .step ?_, ⟨Nat.zero_le _, hreads⟩, rfl, ?_, hpos⟩
      · rw [Node.step, if_pos rfl]
        simp only [haccept]
      · rw [← hunread]
        simp [Node.unread]
  · exact ⟨0, n, .refl stackAt n, h, rfl, hunread, Nat.lt_of_le_of_ne h.pointer hlast⟩

/-- The character at the pointer is shown to the parser. -/
theorem Node.Ready.feed (stack : StackBytes) (h : n.Ready) {bs : List UInt8}
    (hunread : n.unread = c :: bs)
    (hin : n.pointer < n.buffer.length) :
    ∃ n', n.step stack = some n' ∧ n'.Ready ∧ n'.decoder = (n.decoder.feed stack c).1 ∧
      n'.unread = if (n.decoder.feed stack c).2 then bs else c :: bs := by
  rw [Node.unread, List.drop_eq_getElem_cons hin, List.cons_append] at hunread
  obtain ⟨hc, hbs⟩ := List.cons.inj hunread
  refine ⟨{ n with
      decoder := (n.decoder.feed stack c).1
      pointer := n.pointer + (n.decoder.feed stack c).2.toNat }, ?_, ⟨?_, h.reads⟩, rfl, ?_⟩
  · rw [Node.step, if_neg (Nat.ne_of_lt hin), List.getElem?_eq_getElem hin, hc]
    rfl
  · have hmove := Bool.toNat_le (n.decoder.feed stack c).2
    show n.pointer + _ ≤ n.buffer.length
    omega
  · cases (n.decoder.feed stack c).2 with
    | true => exact hbs
    | false => rw [Node.unread, Bool.toNat_false, Nat.add_zero, List.drop_eq_getElem_cons hin, hc,
        List.cons_append, hbs, if_neg Bool.false_ne_true]

/-- A round in which the parser goes on in the same way whatever lies on the stack. -/
theorem Node.Ready.round (stackAt : Nat → StackBytes) (h : n.Ready) {bs : List UInt8} {move : Bool}
    (hunread : n.unread = c :: bs) (hfeed : ∀ stack, n.decoder.feed stack c = (t, move)) :
    ∃ i n', Runs stackAt i n n' ∧ n'.Ready ∧ n'.decoder = t ∧
      n'.unread = if move then bs else c :: bs := by
  obtain ⟨i, n₁, hrun, hready, hd, hunread₁, hin⟩ := h.refill stackAt hunread
  obtain ⟨n₂, hstep, hready₂, hd₂, hunread₂⟩ := hready.feed (stackAt (0 + i)) hunread₁ hin
  rw [hd, hfeed] at hd₂ hunread₂
  exact ⟨1 + i, n₂, hrun.trans (.step hstep), hready₂, hd₂, hunread₂⟩

/-- The node parses what the parser takes, however it is cut into reads. -/
theorem runs_of_consumes {d : Decoder} {bytes : List UInt8} (stackAt : Nat → StackBytes)
    (h : Consumes Decoder.feed d bytes t) (hready : n.Ready) (hd : n.decoder = d)
    (hbytes : n.unread = bytes) :
    ∃ i n', Runs stackAt i n n' ∧ n'.Ready ∧ n'.decoder = t ∧ n'.unread = [] := by
  induction h generalizing n stackAt with
  | nil => exact ⟨0, n, .refl stackAt n, hready, hd, hbytes⟩
  | take htake _ ih =>
    obtain ⟨i, n₁, hrun₁, hready₁, hd₁, hunread₁⟩ := hready.round stackAt hbytes (hd ▸ htake)
    obtain ⟨j, n', hrun, hend⟩ := ih _ hready₁ hd₁ hunread₁
    exact ⟨j + i, n', hrun₁.trans hrun, hend⟩
  | hold hhold _ ih =>
    obtain ⟨i, n₁, hrun₁, hready₁, hd₁, hunread₁⟩ := hready.round stackAt hbytes (hd ▸ hhold)
    obtain ⟨j, n', hrun, hend⟩ := ih _ hready₁ hd₁ hunread₁
    exact ⟨j + i, n', hrun₁.trans hrun, hend⟩

/-- With nothing left to parse the node waits for the device. -/
theorem Node.Ready.waits (stack : StackBytes) (h : n.Ready) (hunread : n.unread = []) :
    n.step stack = none := by
  obtain ⟨hdrop, hflat⟩ := List.append_eq_nil_iff.mp hunread
  have hlast : n.pointer = n.buffer.length :=
    Nat.le_antisymm h.pointer (List.drop_eq_nil_iff.mp hdrop)
  have hreads : n.reads = [] := List.eq_nil_iff_forall_not_mem.mpr fun read hread =>
    (h.reads read hread).1 (List.flatten_eq_nil_iff.mp hflat read hread)
  rw [Node.step, if_pos hlast, hreads]

theorem run_of_waits (h : ∀ stack, n.step stack = none) (j : Nat) : n.run stackAt j = n := by
  cases j with
  | zero => rfl
  | succ j => rw [Node.run, h]

/-- The node publishes exactly the frames of the stream and then waits for the device,
whatever the reads. -/
theorem stream_published {frames : List (MsgType × List UInt8)} {reads : List (List UInt8)}
    (stackAt : Nat → StackBytes) (h : Stream reads.flatten frames)
    (hreads : ∀ read ∈ reads, read ≠ [] ∧ read.length ≤ hcProtocolMaxLen) :
    ∃ n : Node, (∀ stack, n.step stack = none) ∧
      n.decoder.published.map SingleMsg.frame = frames ∧
      ∃ k, ∀ fuel ≥ k, Node.run stackAt fuel { reads := reads } = n := by
  obtain ⟨t, hconsumes, hpublished⟩ := stream_consumed h 0 []
  have hready : Node.Ready { reads := reads } := ⟨Nat.le_refl _, hreads⟩
  obtain ⟨k, n, hrun, hend, hd, hunread⟩ := runs_of_consumes stackAt hconsumes hready rfl rfl
  have hwaits := fun stack => hend.waits stack hunread
  refine ⟨n, hwaits, hd ▸ hpublished, k, fun fuel hfuel => ?_⟩
  rw [← Nat.sub_add_cancel hfuel, hrun, run_of_waits hwaits]

/-- A short frame without payload. -/
def emptyFrame : List UInt8 := [0xaa, 0x55, 0x48, 0x43, 0, 0, 1, 3, 0, 0, 0, 0]

theorem stream_published_emptyFrame :
    ∃ n : Node, (∀ stack, n.step stack = none) ∧
      n.decoder.published.map SingleMsg.frame = [(.cgiShortHeader, emptyFrame)] ∧
      ∃ k, ∀ fuel ≥ k, Node.run (fun round => ⟨UInt8.ofNat round, 0⟩) fuel
        { reads := [[0xaa, 0xaa, 0x55], emptyFrame.drop 2] } = n := by
  have hgarbage : Garbage [0xaa] := ⟨by decide, by decide, by decide⟩
  have hrest : Stream [] [] := .tail ⟨by decide, by decide, by decide⟩
  have hframe : IsFrame .cgiShortHeader emptyFrame := ⟨by decide, by decide, by decide⟩
  exact stream_published _ (.frame hgarbage hframe hrest) (by decide)

end FastLivo.Chcnav
