import GlobalpingProbe.Command.Dns.Rewrite

/-! # Metadata of a dig transcript

Each part of the metadata is what the last line with such a part shows, where lines are read
as they are rewritten. The two lines of the footer show a query time and a resolver whatever is
hidden in them.
-/
namespace GlobalpingProbe.Command.Dns
open Foundation Regex Net

variable {classes : UnicodeClasses} {localIps : List IpAddr}

/-- What a transcript says about the query as a whole. -/
structure Metadata where
  timings : DnsTimings
  resolver : Option Text
  statusCodeName : Option Text
  statusCode : Option ℕ

def ClassicResult.metadata (r : ClassicResult) : Metadata :=
  ⟨r.timings, r.resolver, r.statusCodeName, r.statusCode⟩

def Reading.metadata (r : Reading) : Metadata :=
  ⟨r.timings, r.resolver, r.statusCodeName, r.statusCode⟩

/-- Each part of the metadata as the last line with such a part shows it. -/
def lastShown (classes : UnicodeClasses) (ls : List Text) : Metadata where
  timings := ⟨(lastSome (queryTimeOf classes) ls).getD 0⟩
  resolver := lastSome resolverOf ls
  statusCodeName := lastSome statusNameOf ls
  statusCode := (lastSome statusNameOf ls).bind statusCodeOf

theorem readLine_metadata {reading : Reading} {ls : List Text}
    (h : reading.metadata = lastShown classes ls) (line : Text) :
    (reading.readLine classes line).metadata = lastShown classes (ls ++ [line]) := by
  obtain ⟨htime, hresolver, hname, hcode⟩ := Metadata.mk.inj h
  simp only [Reading.metadata, Reading.readLine, lastShown, lastSome_concat, htime, hresolver,
    hname, hcode]
  cases queryTimeOf classes line <;> cases statusNameOf line <;> simp

theorem readLines_metadata (ls : List Text) :
    (readLines classes ls).metadata = lastShown classes ls := by
  induction ls using List.reverseRecOn with
  | nil => rfl
  | append_singleton ls line ih =>
    have hstep : readLines classes (ls ++ [line]) =
        (readLines classes ls).readLine classes line := by simp [readLines]
    rw [hstep]
    exact readLine_metadata ih line

/-! ## The rewritten lines -/

theorem splitOn_rewriteClassic {ls : List Text} (hne : ls ≠ []) (h : ∀ l ∈ ls, '\n' ∉ l) :
    (rewriteClassic localIps (joinLines ls)).splitOn '\n' = ls.map (rewriteLine localIps) := by
  rw [rewriteClassic, splitOn_joinLines hne h]
  apply splitOn_joinLines (List.map_eq_nil_iff.not.mpr hne)
  intro l hl
  obtain ⟨m, hm, rfl⟩ := List.mem_map.mp hl
  exact newline_rewriteLine (h m hm)

theorem parseClassic_metadata {raw : Text}
    (h : (parseClassic classes localIps raw).status = .finished) :
    (parseClassic classes localIps raw).metadata =
      lastShown classes ((rewriteClassic localIps raw).splitOn '\n') := by
  unfold parseClassic at h ⊢
  dsimp only at h ⊢
  split at h
  · cases h
  · next hok =>
    rw [if_neg hok]
    exact readLines_metadata _

/-! ## The footer -/

theorem queryTimeOf_isSome {digits : Text} (hne : digits ≠ [])
    (hdigits : ∀ c ∈ digits, c.isDigit = true) :
    (queryTimeOf classes
      (rewriteLine localIps (";; Query time: ".toList ++ digits ++ " msec".toList))).isSome =
        true := by
  have hplain : 'S' ∉ ";; Query time: ".toList ++ digits ++ " msec".toList := by
    have hfirst : 'S' ∉ ";; Query time: ".toList := by decide
    have hlast : 'S' ∉ " msec".toList := by decide
    have hmiddle : 'S' ∉ digits := fun hm => absurd (hdigits 'S' hm) (by decide)
    simp only [List.mem_append, not_or]
    exact ⟨⟨hfirst, hmiddle⟩, hlast⟩
  have hspace : [' '] ∈ (plus true (chr isWhitespace)).lang :=
    mem_lang_plus_chr (by simp) (List.all_eq_true.mp rfl)
  have hlang : "Query".toList ++ ([' '] ++ ("time:".toList ++ ([' '] ++ (digits ++ [])))) ∈
      (queryTimeRe classes).lang :=
    Language.append_mem_mul (mem_lang_lit _) (Language.append_mem_mul hspace
      (Language.append_mem_mul (mem_lang_lit _) (Language.append_mem_mul hspace
        (Language.append_mem_mul (mem_lang_plus_chr hne
          (fun c hc => classes.digit_of_isDigit (hdigits c hc))) rfl))))
  rw [rewriteLine_of_notMem hplain, queryTimeOf, Option.isSome_map]
  simpa using captures_isSome hlang ";; ".toList " msec".toList

theorem resolverOf_isSome {server name transport : Text} (hserver : '\n' ∉ server)
    (hname : '\n' ∉ name) :
    (resolverOf (";; SERVER: ".toList ++
      (server ++ '(' :: (name ++ ')' :: transport)))).isSome = true := by
  have hany : ∀ s : Text, '\n' ∉ s → s ∈ (star false anyChar).lang := by
    refine fun s hs => mem_lang_star_chr (fun c hc => ?_)
    have hne : c ≠ '\n' := fun heq => hs (heq ▸ hc)
    simpa using hne
  have hopen : ['('] ∈ (chr (· = '(') : Regex Char).lang := ⟨'(', by decide, rfl⟩
  have hclose : [')'] ∈ (chr (· = ')') : Regex Char).lang := ⟨')', by decide, rfl⟩
  have hlang : "SERVER:".toList ++ ((' ' :: server) ++ (['('] ++ (name ++ ([')'] ++ [])))) ∈
      resolverRe.lang :=
    Language.append_mem_mul (mem_lang_lit _) (Language.append_mem_mul
      (hany _ (by simpa using hserver)) (Language.append_mem_mul hopen
        (Language.append_mem_mul (hany name hname) (Language.append_mem_mul hclose rfl))))
  rw [resolverOf, Option.isSome_map]
  simpa using captures_isSome hlang ";; ".toList transport

/-- Hiding an address keeps the label of the line and the parentheses. -/
theorem replaceAll_serverLine {pat : Text} {ip : IpAddr} (hpat : parseIpAddr pat = some ip)
    (new server name transport : Text) :
    replaceAll pat new (";; SERVER: ".toList ++ (server ++ '(' :: (name ++ ')' :: transport))) =
      ";; SERVER: ".toList ++ (replaceAll pat new server ++ '(' ::
        (replaceAll pat new name ++ ')' :: replaceAll pat new transport)) := by
  have hnot : ∀ c, isLiteralChar c = false → c ∉ pat := fun c => notMem_of_parseIpAddr hpat
  have hne := ne_nil_of_parseIpAddr hpat
  have hE : pat ≠ ['E'] := ne_singleton_of_parseIpAddr hpat (by decide)
  have hcolon : pat ≠ [':'] := ne_singleton_of_parseIpAddr hpat (by decide)
  have hlabel : ∀ s, replaceAll pat new (";; SERVER: ".toList ++ s) =
      ";; SERVER: ".toList ++ replaceAll pat new s := by
    intro s
    have htext : ";; SERVER: ".toList =
        [';', ';', ' ', 'S', 'E', 'R', 'V', 'E', 'R', ':', ' '] := rfl
    simp only [htext, List.cons_append, List.nil_append]
    rw [replaceAll_cons (hnot ';' (by decide)) hne, replaceAll_cons (hnot ';' (by decide)) hne,
      replaceAll_cons (hnot ' ' (by decide)) hne, replaceAll_cons (hnot 'S' (by decide)) hne,
      replaceAll_cons_cons (hnot 'R' (by decide)) hne hE,
      replaceAll_cons (hnot 'V' (by decide)) hne,
      replaceAll_cons_cons (hnot 'R' (by decide)) hne hE,
      replaceAll_cons_cons (hnot ' ' (by decide)) hne hcolon]
  rw [hlabel, replaceAll_append_cons (hnot '(' (by decide)) hne,
    replaceAll_append_cons (hnot ')' (by decide)) hne]

end GlobalpingProbe.Command.Dns
