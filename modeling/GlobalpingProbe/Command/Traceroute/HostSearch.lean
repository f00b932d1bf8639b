import GlobalpingProbe.Command.Traceroute.HopLine

/-! # The search for a host in a hop line

A match starts with the host of the first responder whose address can be read and ends with
that address; the search passes over all in front of it.
-/
namespace GlobalpingProbe.Command.Traceroute
open Foundation Regex

section Host
variable {classes : UnicodeClasses} {r : Responder} {s w : Text}

/-- A host with its zone. -/
abbrev hostPart (classes : UnicodeClasses) : Regex Char :=
  Regex.seq (group 1 (plus false (chr (!isWhitespace ·)))) (scopeId classes)

theorem exec_hostRe (s : Text) : (hostRe classes).exec s =
    (Regex.seq (hostPart classes) (behindHost classes)).exec s :=
  (exec_seq_assoc _ _ _ s).symm

theorem space_notMem_hostPart {v : Text} (h : v ∈ (hostPart classes).lang) : ' ' ∉ v := by
  have hspace : ∀ c, (!isWhitespace c) = true → c ≠ ' ' := by
    rintro c hc rfl
    cases hc
  have hword : ∀ c, classes.word c = true → c ≠ ' ' := by
    rintro c hc rfl
    rw [classes.word_eq_false (by decide) (by decide)] at hc
    cases hc
  have hpercent : ∀ c, decide (c = '%') = true → c ≠ ' ' := by
    rintro c hc rfl
    cases hc
  have hover : (hostPart classes).Over (· ≠ ' ') :=
    ⟨⟨hspace, hspace⟩, ⟨hpercent, ⟨hword, hword⟩, trivial⟩, trivial⟩
  exact fun hmem => of_mem_lang hover v h ' ' hmem rfl

/-- A host ends where the text behind it starts. -/
theorem host_unique (hw : ∀ c ∈ w, isWhitespace c = false) (hs : ∀ c ∈ s.head?, c = ' ') :
    ∀ v u, v ++ u = w ++ s → v ∈ (hostPart classes).lang →
      (behindHost classes).exec u ≠ [] → u = s := by
  apply unique_of_head
  · intro v hv c hc
    rw [hs c hc]
    exact space_notMem_hostPart hv
  · intro u hu
    obtain ⟨c, u', rfl, hc⟩ := starts_behindHost u hu
    refine ⟨c, u', rfl, fun hmem => ?_⟩
    rw [hw c hmem] at hc
    cases hc

theorem exec_hostRe_word (hw : ∀ c ∈ w, isWhitespace c = false) (hs : ∀ c ∈ s.head?, c = ' ')
    (hbehind : (behindHost classes).exec s = []) : (hostRe classes).exec (w ++ s) = [] := by
  by_contra h
  rw [exec_hostRe] at h
  obtain ⟨v, u, heq, hv, hu⟩ := of_exec_seq_ne_nil h
  obtain rfl := host_unique hw hs v u heq hv hu
  exact hu hbehind

theorem skips_word (hw : ∀ c ∈ w, isWhitespace c = false) (hs : ∀ c ∈ s.head?, c = ' ')
    (hbehind : (behindHost classes).exec s = []) : (hostRe classes).Skips w s := by
  induction w with
  | nil => trivial
  | cons c w ih =>
    exact ⟨exec_hostRe_word hw hs hbehind, ih (fun d hd => hw d (List.mem_cons_of_mem c hd))⟩

theorem skips_spaces (n : ℕ) (s : Text) : (hostRe classes).Skips (List.replicate n ' ') s := by
  induction n with
  | zero => trivial
  | succ n ih =>
    refine ⟨exec_eq_nil_of_start (P := (isWhitespace · = false)) ?_ ?_, ih⟩
    · exact starts_seq (r := group 1 (plus false (chr (!isWhitespace ·))))
        (fun v hv => by simpa using of_mem_lang_plus_chr hv)
    · intro c hc
      obtain rfl : ' ' = c := by simpa using hc
      decide

theorem visible_of_isResponderChar {c : Char} (h : isResponderChar c = true) :
    isWhitespace c = false ∧ c ≠ '(' := by
  simp only [isResponderChar, Bool.and_eq_true, decide_eq_true_eq, Bool.not_eq_true'] at h
  exact ⟨h.2, h.1.1⟩

/-- The match at a responder with a readable address. -/
theorem head?_exec_hostRe (hr : r.Readable classes) (s : Text) :
    ∃ m, ((hostRe classes).exec (r.text ++ s)).head? = some m ∧ m.rest = s ∧
      m.group 2 = [' '] ∧ m.group 3 = r.ip ∧ ('%' ∉ r.host → m.group 1 = r.host) := by
  have hchars : ∀ c ∈ r.host, isWhitespace c = false :=
    fun c hc => (visible_of_isResponderChar (r.isResponderChar_host c hc)).1
  have hlang : r.host ∈ (hostPart classes).lang := by
    have hname : r.host ∈ (plus false (chr (!isWhitespace ·))).lang :=
      mem_lang_plus_chr r.host_ne_nil (fun c hc => by simp [hchars c hc])
    exact Language.mem_mul.mpr ⟨r.host, hname, [], .inr rfl, List.append_nil _⟩
  have hunique : ∀ v u, v ++ u = r.host ++ ' ' :: (r.address ++ s) →
      v ∈ (hostPart classes).lang → (behindHost classes).exec u ≠ [] →
        u = ' ' :: (r.address ++ s) := host_unique hchars (by simp)
  obtain ⟨n, hn, hntext, hnrest, hhead⟩ := head?_exec_seq_of_unique hlang hunique
  have htext : r.text ++ s = r.host ++ ' ' :: (r.address ++ s) := by simp [Responder.text]
  rw [htext, exec_hostRe, hhead, head?_exec_behindHost hr s, Option.map_some]
  refine ⟨_, rfl, rfl, ?_, ?_, fun hpercent => ?_⟩
  · simp [Match.append, Match.group, Match.get, List.lookup_cons]
  · simp [Match.append, Match.group, Match.get]
  · obtain ⟨a, ha, b, hb, rfl⟩ : ∃ a ∈ (group 1 (plus false (chr (!isWhitespace ·)))).exec
        (r.host ++ ' ' :: (r.address ++ s)), ∃ b ∈ (scopeId classes).exec a.rest,
          a.append b = n := by simpa [exec] using hn
    obtain ⟨k, hk, rfl⟩ := List.mem_map.mp ha
    have hname : (plus false (chr (!isWhitespace ·))).Plain := ⟨trivial, trivial⟩
    have hscope : (scopeId classes).Plain := ⟨⟨trivial, ⟨trivial, trivial⟩, trivial⟩, trivial⟩
    have hkcaps : k.caps = [] := caps_of_plain hname _ k hk
    have hbcaps : b.caps = [] := caps_of_plain hscope _ b hb
    have hhost : k.text ++ b.text = r.host := hntext
    have hempty : b.text = [] := by
      rcases of_mem_lang_scopeId ((scopeId classes).exec_sound _ b hb).2 with hnil | ⟨z, hz, -⟩
      · exact hnil
      · exact absurd (by simp [← hhost, hz]) hpercent
    rw [hempty, List.append_nil] at hhost
    simp [Match.append, Match.group, Match.get, List.lookup_cons, hkcaps, hbcaps, hhost]

end Host

/-! ## The parts of a line -/

section Items
variable {classes : UnicodeClasses} {item : HopItem} {items : List HopItem}

/-- No address can be read here. -/
def HopItem.Passed (classes : UnicodeClasses) (item : HopItem) : Prop :=
  ∀ r, item.part = .responder r → ¬ r.Readable classes

theorem itemsText_cons (item : HopItem) (items : List HopItem) :
    itemsText (item :: items) = item.text ++ itemsText items := List.flatMap_cons

theorem itemsText_append (front back : List HopItem) :
    itemsText (front ++ back) = itemsText front ++ itemsText back := List.flatMap_append

theorem head_itemsText : ∀ c ∈ (itemsText items).head?, c = ' ' := by
  cases items with
  | nil => nofun
  | cons item items =>
    intro c hc
    rw [itemsText_cons, HopItem.text, List.replicate_succ] at hc
    simpa using hc.symm

theorem visible_of_isDigit {c : Char} (h : c.isDigit = true) :
    isWhitespace c = false ∧ c ≠ '(' := by
  have halnum : c.isAlphanum = true := by simp [Char.isAlphanum, h]
  refine ⟨isWhitespace_of_isAlphanum halnum, ?_⟩
  rintro rfl
  cases h

theorem part_starts (part : HopPart) :
    ∃ c w, part.text = c :: w ∧ isWhitespace c = false ∧ c ≠ '(' := by
  cases part with
  | star => exact ⟨'*', [], rfl, by decide, by decide⟩
  | flag mark => exact ⟨'!', mark.front ++ [mark.last], rfl, by decide, by decide⟩
  | rtt time =>
    obtain ⟨c, w, htext, hc⟩ := time.text_eq_cons
    exact ⟨c, w ++ ' ' :: "ms".toList, by rw [HopPart.text, htext]; rfl, visible_of_isDigit hc⟩
  | responder r =>
    obtain ⟨c, w, hhost⟩ := List.exists_cons_of_ne_nil r.host_ne_nil
    have hc := r.isResponderChar_host c (by simp [hhost])
    exact ⟨c, w ++ ' ' :: r.address, by rw [HopPart.text, Responder.text, hhost]; rfl,
      visible_of_isResponderChar hc⟩

/-- Behind its gap a list of parts starts with the text of the first one. -/
theorem dropWhile_itemsText (item : HopItem) (items : List HopItem) :
    (itemsText (item :: items)).dropWhile isWhitespace = item.part.text ++ itemsText items := by
  obtain ⟨c, w, htext, hc, -⟩ := part_starts item.part
  rw [itemsText_cons, HopItem.text, List.append_assoc,
    List.dropWhile_append_of_pos (fun _ => isWhitespace_of_mem_blanks), htext, List.cons_append,
    List.dropWhile_cons_of_neg (by simp [hc])]

/-- No address in parentheses stands at the front of a list of parts. -/
theorem exec_behindHost_itemsText : (behindHost classes).exec (itemsText items) = [] := by
  by_contra h
  obtain ⟨u, hu, -⟩ := of_exec_behindHost h
  cases items with
  | nil => cases hu
  | cons item items =>
    obtain ⟨c, w, htext, -, hparen⟩ := part_starts item.part
    rw [dropWhile_itemsText, htext] at hu
    exact hparen (List.cons.inj hu).1

theorem skips_last_word {w : Text} (hw : ∀ c ∈ w, isWhitespace c = false) :
    (hostRe classes).Skips w (itemsText items) :=
  skips_word hw head_itemsText exec_behindHost_itemsText

theorem skips_rtt (time : Decimal) :
    (hostRe classes).Skips (HopPart.rtt time).text (itemsText items) := by
  have hword : ∀ c ∈ time.text, isWhitespace c = false := by
    intro c hc
    rcases Decimal.mem_text hc with hdigit | rfl
    · exact (visible_of_isDigit hdigit).1
    · decide
  have hms : ∀ c ∈ "ms".toList, isWhitespace c = false :=
    List.forall_mem_cons.mpr ⟨by decide, List.forall_mem_singleton.mpr (by decide)⟩
  have hunit : (behindHost classes).exec (' ' :: ("ms".toList ++ itemsText items)) = [] := by
    by_contra h
    obtain ⟨u, hu, -⟩ := of_exec_behindHost h
    have hm : (' ' :: ("ms".toList ++ itemsText items)).dropWhile isWhitespace =
        "ms".toList ++ itemsText items := rfl
    rw [hm] at hu
    exact absurd (List.cons.inj hu).1 (by decide)
  refine skips_append.mpr ⟨skips_word hword (by simp) hunit, ?_⟩
  exact skips_append.mpr ⟨skips_spaces 1 _, skips_last_word hms⟩

theorem visible_address (r : Responder) : ∀ c ∈ r.address, isWhitespace c = false := by
  obtain ⟨addr, haddr⟩ := r.ip_parses
  intro c hc
  simp only [Responder.address, List.mem_cons, List.mem_append, List.not_mem_nil, or_false] at hc
  rcases hc with rfl | hc | hc | rfl
  · decide
  · exact Net.isWhitespace_of_isLiteralChar (Net.isLiteralChar_of_parseIpAddr haddr c hc)
  · cases hzone : r.zone with
    | none => simp [hzone, zoneText] at hc
    | some z =>
      rw [hzone, zoneText] at hc
      rcases List.mem_cons.mp hc with rfl | hc
      · decide
      · exact (visible_of_isResponderChar (r.isResponderChar_zone z hzone c hc)).1
  · decide

theorem visible_host (r : Responder) : ∀ c ∈ r.host, isWhitespace c = false :=
  fun c hc => (visible_of_isResponderChar (r.isResponderChar_host c hc)).1

theorem skips_responder {r : Responder} (hr : ¬ r.Readable classes) :
    (hostRe classes).Skips r.text (itemsText items) := by
  refine skips_append.mpr ⟨skips_word (visible_host r) (by simp) (exec_behindHost hr _), ?_⟩
  exact skips_append.mpr ⟨skips_spaces 1 _, skips_last_word (visible_address r)⟩

/-- One part without a readable address is passed over. -/
theorem skips_item (h : item.Passed classes) :
    (hostRe classes).Skips item.text (itemsText items) := by
  refine skips_append.mpr ⟨skips_spaces (item.gap + 1) _, ?_⟩
  cases hpart : item.part with
  | star => exact skips_last_word (List.forall_mem_singleton.mpr (by decide))
  | flag mark => exact skips_last_word mark.visible
  | rtt time => exact skips_rtt time
  | responder r => exact skips_responder (h r hpart)

theorem skips_items {front : List HopItem} (h : ∀ item ∈ front, item.Passed classes)
    (back : List HopItem) : (hostRe classes).Skips (itemsText front) (itemsText back) := by
  induction front with
  | nil => trivial
  | cons item front ih =>
    have hfirst : (hostRe classes).Skips item.text (itemsText (front ++ back)) :=
      skips_item (h item List.mem_cons_self)
    rw [itemsText_append] at hfirst
    rw [itemsText_cons]
    exact skips_append.mpr
      ⟨hfirst, ih (fun other hother => h other (List.mem_cons_of_mem item hother))⟩

theorem skips_hopLine {front : List HopItem} (h : ∀ item ∈ front, item.Passed classes)
    (back : List HopItem) : (hostRe classes).Skips (firstHopLine front) (itemsText back) := by
  have hnumber : (hostRe classes).Skips "1".toList (itemsText (front ++ back)) :=
    skips_last_word (List.forall_mem_singleton.mpr (by decide))
  rw [itemsText_append] at hnumber
  have hspace : (hostRe classes).Skips [' '] ("1".toList ++ (itemsText front ++ itemsText back)) :=
    skips_spaces 1 _
  exact skips_append.mpr ⟨skips_append.mpr ⟨hspace, hnumber⟩, skips_items h back⟩

/-! ## What the search finds -/

theorem firstHopLine_append (front back : List HopItem) :
    firstHopLine (front ++ back) = firstHopLine front ++ itemsText back := by
  rw [firstHopLine, itemsText_append]
  rfl

theorem find_hopLine_none (h : ∀ item ∈ items, item.Passed classes) :
    (hostRe classes).find (firstHopLine items) = none := by
  have hnil : (hostRe classes).exec ([] ++ itemsText []) = [] :=
    exec_hostRe_word (by simp) head_itemsText exec_behindHost_itemsText
  exact find_eq_none (skips_hopLine h []) hnil

/-- The search finds the first responder with a readable address. -/
theorem find_hopLine {front : List HopItem} {r : Responder} (gap : ℕ) (back : List HopItem)
    (h : ∀ item ∈ front, item.Passed classes) (hr : r.Readable classes) :
    ∃ m, (hostRe classes).find (firstHopLine (front ++ ⟨gap, .responder r⟩ :: back)) =
        some (firstHopLine front ++ List.replicate (gap + 1) ' ', m) ∧
      m.rest = itemsText back ∧ m.group 2 = [' '] ∧ m.group 3 = r.ip ∧
      ('%' ∉ r.host → m.group 1 = r.host) := by
  obtain ⟨m, hm, hrest⟩ := head?_exec_hostRe hr (itemsText back)
  have hitem : itemsText (⟨gap, .responder r⟩ :: back) =
      List.replicate (gap + 1) ' ' ++ (r.text ++ itemsText back) := by
    rw [itemsText_cons, HopItem.text, HopPart.text, List.append_assoc]
  have hfront := find_of_skips (skips_hopLine h (⟨gap, .responder r⟩ :: back))
  rw [hitem, find_of_skips (skips_spaces (gap + 1) _), find_of_head? hm] at hfront
  refine ⟨m, ?_, hrest⟩
  rw [firstHopLine_append, hitem, hfront]
  simp

end Items
end GlobalpingProbe.Command.Traceroute
