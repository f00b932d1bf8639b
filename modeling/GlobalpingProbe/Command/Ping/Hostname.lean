import GlobalpingProbe.Command.Ping.Statistics

/-! # The host name of a transcript

The name is searched for in the line behind the header, whatever that line is: ping reports
there on a reply, on a packet without an answer or on an error.
-/
namespace GlobalpingProbe.Command.Ping
open Foundation Regex

/-- `\s\(|:\s` at the front. -/
def endsName : Text → Bool
  | c :: d :: _ => (isWhitespace c && d = '(') || (c = ':' && isWhitespace d)
  | _ => false

/-- The name behind a space, up to its end. -/
def nameBehind : Text → Option Text
  | c :: s => if isWhitespace c then textUntil endsName s else none
  | [] => none

/-- The name behind the first `from` that has one. -/
def namedHost (line : Text) : Option Text := (followers "from".toList line).findSome? nameBehind

/-- Behind the first `from` and white space of the line stands the name, up to the first end. -/
def NamesHost (line name : Text) : Prop :=
  ∃ before space after, line = before ++ ("from".toList ++ space :: (name ++ after)) ∧
    isWhitespace space = true ∧ endsName after = true ∧
    (∀ v c w, name = v ++ c :: w → endsName (c :: (w ++ after)) = false) ∧
    ∀ u c w, line = u ++ ("from".toList ++ c :: w) → isWhitespace c = true →
      before.length ≤ u.length

namespace Transcript

def firstReply (t : Transcript) : Option Reply :=
  t.packets.findSome? (fun p => match p with
    | .reply r => some r
    | .noAnswer _ | .error _ => none)

/-- The name is that of the first reply. -/
def NamesFirstReply (classes : UnicodeClasses) (t : Transcript) : Prop :=
  ∀ r, t.firstReply = some r → (parse classes t.text).resolvedHostname = some r.host.val

/-- The line behind the header names the host of the first reply: it is the reply itself, whose
host has no colon before a space, or an error that speaks of the same host, or of none where the
host is empty. The line of an unanswered packet names no host. -/
def FirstLineNames (t : Transcript) : Prop :=
  ∀ r, t.firstReply = some r → ∀ p, t.packets.head? = some p →
    match p with
    | .reply _ => r.addr = none ∨ r.host.val.getLast? ≠ some ':'
    | .noAnswer _ => r.host.val = []
    | .error message => NamesHost ("From ".toList ++ message.val) r.host.val ∨
      (r.host.val = [] ∧ ∀ name, ¬ NamesHost ("From ".toList ++ message.val) name)

end Transcript

section Names
variable {classes : UnicodeClasses}

/-- `\s\(|:\s`. -/
abbrev nameEndRe : Regex Char :=
  alt (concat [chr isWhitespace, chr (· = '(')]) (concat [chr (· = ':'), chr isWhitespace])

theorem exec_two (p q : Char → Bool) (c d : Char) (s : Text) :
    (concat [chr p, chr q]).exec (c :: d :: s) =
      if p c && q d then [⟨[c, d], [], s⟩] else [] := by
  cases hp : p c with
  | false => simp [concat, exec, hp]
  | true => cases hq : q d <;> simp [concat, exec, hp, hq, Match.append, Match.stop]

theorem exec_two_short (p q : Char → Bool) {u : Text} (hu : u.length < 2) :
    (concat [chr p, chr q]).exec u = [] := by
  match u, hu with
  | [], _ => rfl
  | [c], _ => cases hp : p c <;> simp [concat, exec, hp]

theorem exec_nameEndRe (u : Text) : (nameEndRe.exec u).head?.isSome = endsName u := by
  match u with
  | [] => rfl
  | [c] =>
    have hshort : [c].length < 2 := Nat.lt_succ_self 1
    rw [nameEndRe, exec, exec_two_short _ _ hshort, exec_two_short _ _ hshort]
    rfl
  | c :: d :: s =>
    rw [nameEndRe, exec, exec_two, exec_two, List.head?_append, Option.isSome_or, endsName]
    congr 1
    · split <;> simp_all
    · split <;> simp_all

theorem exec_nameBehind {t : Text} (ht : '\n' ∉ t) :
    (((concat [chr isWhitespace, group 1 (star false anyChar), nameEndRe]).exec t).head?).map
      (·.group 1) = nameBehind t := by
  cases t with
  | nil => rfl
  | cons c s =>
    have hs : ∀ d ∈ s, decide (d ≠ '\n') = true := by
      intro d hd
      apply decide_eq_true
      rintro rfl
      exact ht (List.mem_cons_of_mem c hd)
    have hplain : nameEndRe.Plain := ⟨⟨trivial, trivial, trivial⟩, trivial, trivial, trivial⟩
    have hend : ∀ u, ((concat [nameEndRe]).exec u) = nameEndRe.exec u :=
      fun u => exec_seq_empty nameEndRe u
    have huntil := exec_group_until (q := concat [nameEndRe]) (i := 1) hs
      (fun u => by rw [hend, exec_nameEndRe]) (fun u m hm => caps_of_plain hplain u m (hend u ▸ hm))
    rw [nameBehind, ← huntil, concat, head?_exec_seq, exec_chr_cons]
    split
    · rw [List.findSome?_singleton, Option.map_map]
      rfl
    · rfl

theorem hostname_of_line {line : Text} (hline : '\n' ∉ line) (later : List Text) :
    replyHostname (line :: later) = (namedHost line).getD [] := by
  have hnamed : ((hostnameRe.captures line).map (·.group 1)) = namedHost line := by
    refine (captures_lit_seq 'f' "rom".toList _ 1 line).trans (findSome?_congr (fun t ht => ?_))
    exact exec_nameBehind (fun hmem => hline ((suffix_of_mem_followers ht).subset hmem))
  rw [← hnamed, replyHostname, List.head?_cons, Option.bind_some]
  cases hostnameRe.captures line <;> rfl

/-! ## The names of the lines -/

/-- A text without white space is the name, unless a colon of it stands before a space. -/
theorem textUntil_host {host : Text} (hhost : ∀ c ∈ host, isWhitespace c = false) {d : Char}
    {t : Text} (hend : endsName (d :: t) = true)
    (hlast : isWhitespace d = true → host.getLast? ≠ some ':') :
    textUntil endsName (host ++ d :: t) = some host := by
  refine textUntil_append (fun v c w hsplit => ?_) hend
  have hc : isWhitespace c = false := hhost c (by simp [hsplit])
  cases w with
  | nil =>
    have hcolon : ¬ (c = ':' ∧ isWhitespace d = true) := by
      rintro ⟨rfl, hd⟩
      exact hlast hd (by rw [hsplit, List.getLast?_concat])
    rw [List.nil_append]
    simpa [endsName, hc] using hcolon
  | cons e w =>
    have he : isWhitespace e = false := hhost e (by simp [hsplit])
    simp [endsName, hc, he]

theorem namedHost_append {front s n : Text} (hfront : 'f' ∉ front)
    (h : nameBehind s = some n) : namedHost (front ++ ("from".toList ++ s)) = some n := by
  have hfirst : followers "from".toList ('f' :: ("rom".toList ++ s)) =
      s :: followers "from".toList ("rom".toList ++ s) := followers_cons_append rfl
  have hskip : followers "from".toList (front ++ ("from".toList ++ s)) =
      followers "from".toList ('f' :: ("rom".toList ++ s)) := followers_append_of_notMem hfront _
  rw [namedHost, hskip, hfirst, List.findSome?_cons, h]

theorem namedHost_reply {r : Reply} {n : Text}
    (h : textUntil endsName (r.source ++ (": ".toList ++ r.afterSource)) = some n) :
    namedHost r.text = some n := by
  have hsplit : r.text = (printed r.bytes ++ " bytes ".toList) ++ ("from".toList ++
      (' ' :: (r.source ++ (": ".toList ++ r.afterSource)))) := by
    rw [r.text_eq, List.append_assoc]
    rfl
  have hfront : 'f' ∉ printed r.bytes ++ " bytes ".toList := by
    have hdigits := notMem_printed (c := 'f') r.bytes rfl
    simp only [List.mem_append, hdigits, false_or]
    decide
  rw [hsplit]
  exact namedHost_append hfront h

theorem not_whitespace_host (host : Host) : ∀ c ∈ host.val, isWhitespace c = false := by
  intro c hc
  by_contra hspace
  have hname := host.property c hc
  simp [isNameChar, hspace] at hname

/-- The line of a reply names its host, unless the host ends in a colon and an address follows. -/
theorem namedHost_reply_iff (r : Reply) : (namedHost r.text).getD [] = r.host.val ↔
    r.addr = none ∨ r.host.val.getLast? ≠ some ':' := by
  have hhost := not_whitespace_host r.host
  cases haddr : r.addr with
  | none =>
    have hsource : r.source = r.host.val := by rw [Reply.source, haddr]
    have hname : namedHost r.text = some r.host.val := by
      apply namedHost_reply
      rw [hsource]
      exact textUntil_host hhost rfl (fun hspace => absurd hspace (by decide))
    simp [hname]
  | some addr =>
    have hsource : r.source ++ (": ".toList ++ r.afterSource) = r.host.val ++ ' ' :: ('(' ::
        (addr.val ++ (")".toList ++ (": ".toList ++ r.afterSource)))) := by
      rw [Reply.source, haddr]
      simp
    by_cases hlast : r.host.val.getLast? = some ':'
    · obtain ⟨front, hfront⟩ := List.getLast?_eq_some_iff.mp hlast
      have hname : namedHost r.text = some front := by
        apply namedHost_reply
        rw [hsource, hfront, List.append_assoc]
        exact textUntil_host (fun c hc => hhost c (by simp [hfront, hc])) rfl
          (fun hspace => absurd hspace (by decide))
      simp [hname, hfront]
    · have hname : namedHost r.text = some r.host.val := by
        apply namedHost_reply
        rw [hsource]
        exact textUntil_host hhost rfl (fun _ => hlast)
      simp [hname, hlast]

theorem namedHost_eq_some {line name : Text} :
    namedHost line = some name ↔ NamesHost line name := by
  have hne : "from".toList ≠ [] := List.cons_ne_nil _ _
  rw [namedHost, findSome?_followers hne]
  constructor
  · rintro ⟨before, t, hline, ht, hfirst⟩
    cases t with
    | nil => cases ht
    | cons space s =>
      rw [nameBehind, Option.ite_none_right_eq_some, textUntil_eq_some] at ht
      obtain ⟨hspace, after, rfl, hafter, hname⟩ := ht
      refine ⟨before, space, after, hline, hspace, hafter, hname, fun u c w hu hc => ?_⟩
      by_contra hlen
      have hnone := hfirst u (c :: w) hu (not_le.mp hlen)
      rw [nameBehind, if_pos hc] at hnone
      -- An end behind the later place is an end behind the earlier one too.
      have hback : after <:+ line := ⟨before ++ ("from".toList ++ space :: name), by simp [hline]⟩
      have hlater : w <:+ line := ⟨u ++ ("from".toList ++ [c]), by simp [hu]⟩
      have hshort : after.length ≤ w.length := by
        have hlengths := congrArg List.length (hline.symm.trans hu)
        simp only [List.length_append, List.length_cons] at hlengths
        omega
      have hsuffix := List.suffix_of_suffix_length_le hback hlater hshort
      have hsome := textUntil_isSome hsuffix hafter
      rw [hnone] at hsome
      cases hsome
  · rintro ⟨before, space, after, hline, hspace, hafter, hname, hfirst⟩
    refine ⟨before, space :: (name ++ after), hline, ?_, fun u w hu hlen => ?_⟩
    · rw [nameBehind, if_pos hspace]
      exact textUntil_append hname hafter
    · cases w with
      | nil => rfl
      | cons c w => exact if_neg (fun hc => absurd (hfirst u c w hu hc) (not_le.mpr hlen))

theorem namedHost_getD_iff {line host : Text} : (namedHost line).getD [] = host ↔
    NamesHost line host ∨ (host = [] ∧ ∀ name, ¬ NamesHost line name) := by
  simp only [← namedHost_eq_some]
  cases namedHost line with
  | none => simp [eq_comm]
  | some name => simp

theorem namedHost_noAnswer (n : ℕ) : namedHost (PacketLine.noAnswer n).text = none := by
  have hsplit : (PacketLine.noAnswer n).text = "no answer yet ".toList ++
      ('f' :: ("or icmp_seq=".toList ++ printed n)) := rfl
  have hrest : 'f' ∉ "or icmp_seq=".toList ++ printed n := by
    have hdigits := notMem_printed (c := 'f') n rfl
    simp only [List.mem_append, hdigits, or_false]
    decide
  have hother : ¬ "from".toList <+: 'f' :: ("or icmp_seq=".toList ++ printed n) := by
    rintro ⟨t, ht⟩
    have hsecond := congrArg (List.take 2) ht
    change "fr".toList = "fo".toList at hsecond
    exact absurd hsecond (by decide)
  have hskip : followers "from".toList ("no answer yet ".toList ++
      ('f' :: ("or icmp_seq=".toList ++ printed n))) =
        followers "from".toList ('f' :: ("or icmp_seq=".toList ++ printed n)) :=
    followers_append_of_notMem (by decide) _
  have hnone : followers "from".toList (("or icmp_seq=".toList ++ printed n) ++ []) = [] :=
    followers_append_of_notMem hrest []
  rw [List.append_nil] at hnone
  rw [hsplit, namedHost, hskip, followers_cons_of_not hother, hnone]
  rfl

end Names

section Whole
variable {classes : UnicodeClasses}

theorem parse_hostname (t : Transcript) {p : PacketLine} (hp : t.packets.head? = some p) :
    (parse classes t.text).resolvedHostname = some ((namedHost p.text).getD []) := by
  obtain ⟨m, hm, -⟩ := captures_header t.header
  obtain ⟨rest, hrest⟩ := List.head?_eq_some_iff.mp hp
  have hlines : Foundation.lines t.text = t.header.text :: p.text :: (rest.map PacketLine.text ++
      [] :: t.header.statsText :: t.summary.text :: (t.rtt.map RttLine.text).toList) := by
    rw [lines_text, Transcript.lines, hrest]
    rfl
  have hline : '\n' ∉ p.text := IsLineEnd.notMem_packet (.inr rfl) p
  unfold parse
  simp only [hlines, hm, hostname_of_line hline]

/-- The host name is that of the first reply exactly when the line behind the header names it. -/
theorem namesFirstReply_iff (classes : UnicodeClasses) (t : Transcript) :
    t.NamesFirstReply classes ↔ t.FirstLineNames := by
  unfold Transcript.NamesFirstReply Transcript.FirstLineNames
  refine forall₂_congr (fun r hr => ?_)
  cases hpackets : t.packets with
  | nil =>
    rw [Transcript.firstReply, hpackets] at hr
    cases hr
  | cons p rest =>
    have hp : t.packets.head? = some p := by rw [hpackets, List.head?_cons]
    rw [parse_hostname t hp, Option.some.injEq]
    simp only [List.head?_cons, Option.some.injEq, forall_eq']
    cases p with
    | reply first =>
      obtain rfl : first = r := by
        rw [Transcript.firstReply, hpackets] at hr
        exact Option.some.inj hr
      exact namedHost_reply_iff first
    | noAnswer n => rw [namedHost_noAnswer, Option.getD_none, eq_comm]
    | error message => exact namedHost_getD_iff

end Whole

/-! ## A first packet without an answer -/

def lateHost : Host := ⟨"one.one.one.one".toList, List.all_eq_true.mp (by decide)⟩
def lateAddr : Host := ⟨"1.1.1.1".toList, List.all_eq_true.mp (by decide)⟩
def lateTime : Decimal :=
  ⟨"4".toList, "2".toList, by decide, List.all_eq_true.mp (by decide),
    List.all_eq_true.mp (by decide)⟩

def lateReply : Reply :=
  { bytes := 64
    host := lateHost
    addr := some lateAddr
    seq := 2
    ttl := 57
    time := lateTime
    duplicate := false
    ttl_lt := by decide }

def lateTranscript : Transcript :=
  { header :=
      { host := lateHost
        name := none
        addr := lateAddr
        rest := ⟨" 56(84) bytes of data.".toList, by decide⟩
        name_ne_nil := by decide
        addr_ne_nil := by decide }
    packets := [.noAnswer 1, .reply lateReply]
    summary :=
      { transmitted := 2
        received := 1
        duplicates := none
        errors := none
        loss := ⟨"50".toList, [], by decide, List.all_eq_true.mp (by decide),
          List.all_eq_true.mp (by decide)⟩
        time := 501
        transmitted_lt := by decide
        received_le := by decide }
    rtt := some ⟨lateTime, lateTime, lateTime, lateTime⟩ }

/-- The reply comes second, and the name is empty. -/
theorem lateTranscript_unnamed :
    ¬ lateTranscript.NamesFirstReply .ascii := by
  intro h
  have hname := h lateReply rfl
  rw [parse_hostname lateTranscript rfl, namedHost_noAnswer] at hname
  exact absurd (Option.some.inj hname) (by decide)

end GlobalpingProbe.Command.Ping
