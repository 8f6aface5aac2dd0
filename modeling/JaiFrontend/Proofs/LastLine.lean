import JaiFrontend.Proofs.Seam
/-!
# A last line that closes nothing

A stretch that is no word is none either if more lines follow it, unless they close it: a string or
a comment that does not end is closed by a quote, or by a slash. So a text has no lexical errors if
it has none together with lines in which neither stands.
-/

namespace JaiFrontend

variable {c : Char} {text later : List Char} {counts : List Char → Prop} {d : Char}

/-- What does not hold the last character of a mark does not close anything. -/
theorem NeverCloses.append (mark : List Char) (h : NeverCloses (mark ++ [d]) counts text)
    (hlater : d ∉ later) : NeverCloses (mark ++ [d]) counts (text ++ later) := by
  intro body after hsplit hcloses
  rw [← List.append_assoc] at hsplit
  rcases List.append_eq_append_iff.1 hsplit with ⟨more, hbody, hbehind⟩ | ⟨more, htext, -⟩
  · rcases List.eq_nil_or_concat more with rfl | ⟨init, last, rfl⟩
    · rw [List.append_nil] at hbody
      exact h body [] (by rw [← hbody, List.append_nil]) hcloses
    · rw [← List.append_assoc, List.concat_eq_append, ← List.append_assoc] at hbody
      obtain rfl : d = last := by simpa using (List.append_inj' hbody rfl).2
      exact hlater (hbehind ▸ by simp)
  · exact h body more (by rw [htext, List.append_assoc]) hcloses

/-- No word but a comment goes on across a line feed, and blanks do not begin where no blank is. -/
theorem noWord_below (hc : isBlank c = false)
    (h : ∀ rule word rest, word ++ rest = c :: text → word ∉ WordRule.texts rule)
    (rule : WordRule) (word rest : List Char)
    (htext : word ++ rest = c :: (text ++ '\n' :: later)) : word ∉ rule.texts := by
  intro hword
  have hjoined : word ++ rest = (c :: text) ++ '\n' :: later := htext
  by_cases hle : word.length ≤ (c :: text).length
  · obtain ⟨behind, hbehind⟩ := exists_append_of_prefix hjoined hle []
    exact h rule word behind (by rw [hbehind, List.append_nil]) hword
  · obtain ⟨more, rfl⟩ := exists_eq_of_longer hjoined (Nat.lt_of_not_le hle)
    by_cases hblanks : rule = .blanks
    · subst hblanks
      rw [(WordRule.mem_blanks.1 hword).head htext] at hc
      exact Bool.noConfusion hc
    · by_cases hcomment : rule = .lineComment
      · subst hcomment
        obtain ⟨t, ht, heq⟩ := WordRule.mem_lineComment.1 hword
        have hmem : '\n' ∈ '/' :: '/' :: t := heq ▸ by simp
        simp only [List.mem_cons, Char.reduceEq, false_or] at hmem
        exact ht '\n' hmem rfl
      · exact absurd (WordRule.no_blank hword hblanks hcomment '\n' (by simp)) (by decide)

/-- An error stays one if lines follow that do not close it. -/
theorem scan_error_below {fault : LexicalFault} (h : (scan c text).found = .error fault)
    (hquote : '"' ∉ later) (hslash : '/' ∉ later) :
    (scan c (text ++ '\n' :: later)).found = .error fault := by
  have hhead := not_isBlank_of_scan_error h
  have hline : ∀ e, e ≠ '\n' → e ∉ later → e ∉ '\n' :: later := fun _ hne hmem =>
    List.not_mem_cons_of_ne_of_not_mem hne hmem
  have hbegins : Begins (c :: text) (scan c text) := begins_iff.2 rfl
  generalize hwhole : c :: text = whole at hbegins
  generalize scan c text = s at h hbegins
  cases hbegins with
  | stray hno =>
    obtain ⟨rfl, rfl⟩ := List.cons.inj hwhole
    rw [begins_iff.1 (.stray (noWord_below hhead hno))]
    exact h
  | @word rule word behind s hlongest hmakes =>
    have htext : word ++ (behind ++ '\n' :: later) = c :: (text ++ '\n' :: later) := by
      rw [← List.append_assoc, ← hwhole, List.cons_append]
    have hkept : rule ≠ .blanks → LongestMatch rule word (behind ++ '\n' :: later) :=
      fun hblanks => hlongest.fades hblanks .ends
    cases hmakes with
    | openComment hnever =>
      have hopen : NeverCloses ['*', '/'] (fun _ => True) (behind ++ '\n' :: later) :=
        NeverCloses.append ['*'] hnever (hline '/' (by decide) hslash)
      rw [scan_of_makes (hkept nofun) (.openComment hopen) htext]
      exact h
    | openString hnever =>
      have hopen : NeverCloses ['"'] Unescaped (behind ++ '\n' :: later) :=
        NeverCloses.append [] hnever (hline '"' (by decide) hquote)
      rw [scan_of_makes (hkept nofun) (.openString hopen) htext]
      exact h
    | decimal hreads =>
      rw [scan_of_makes (hkept nofun) (.decimal hreads) htext]
      exact h
    | hexadecimal hreads =>
      rw [scan_of_makes (hkept nofun) (.hexadecimal hreads) htext]
      exact h
    | binary hreads =>
      rw [scan_of_makes (hkept nofun) (.binary hreads) htext]
      exact h
    | _ => cases h

namespace Lexer

variable {lexer : Lexer}

/-- The induction is on the length of the text; each step passes a blank or a word. -/
theorem errors_of_followedBy (hquote : '"' ∉ later) (hslash : '/' ∉ later)
    (h : (lexer.followedBy later).finish.errors = []) : lexer.finish.errors = [] := by
  induction hlength : lexer.rest.length using Nat.strong_induction_on generalizing lexer with
  | _ length ih =>
  cases hrest : lexer.rest with
  | nil =>
    have hnone : lexer.errors = [] := errors_of_finish (lexer.followedBy later) h
    rw [finish_nil hrest]
    exact hnone
  | cons c text =>
    have hrest' : (lexer.followedBy later).rest = c :: (text ++ '\n' :: later) := by
      rw [followedBy, hrest, List.cons_append]
    have hshorter : (scan c text).rest.length < length := by
      rw [← hlength, hrest]
      exact scan_rest_length_lt c text
    cases hc : isBlank c with
    | true =>
      have hpass := (readsAs_past_blank hrest hc).2
      have hpass' := (readsAs_past_blank hrest' hc).2
      rw [hpass]
      rw [hpass', ← past_followedBy] at h
      refine ih _ ?_ h rfl
      rw [← hlength, hrest]
      exact Nat.lt_succ_self _
    | false =>
      cases hfound : (scan c text).found with
      | error fault =>
        rw [finish_cons hrest'] at h
        have hnoted := errors_of_finish _ h
        rw [skip, scan_error_below hfound hquote hslash] at hnoted
        exact absurd (List.append_eq_nil_iff.1 hnoted).2 (List.cons_ne_nil _ _)
      | ok token =>
        have htoken : token ≠ .whitespace := by
          rintro rfl
          rw [isBlank_of_scan_whitespace hfound] at hc
          exact Bool.noConfusion hc
        rw [(followedBy_skip hrest hfound htoken later).2] at h
        rw [finish_cons hrest]
        exact ih _ hshorter h rfl

end Lexer

/-- A text has no lexical errors if it has none together with lines that close nothing. -/
theorem Lexed.errors_of_below {first second : String} (hquote : '"' ∉ second.toList)
    (hslash : '/' ∉ second.toList) (h : (ofString (first ++ "\n" ++ second)).errors = []) :
    (ofString first).errors = [] := by
  have hjoined : Lexer.ofString (first ++ "\n" ++ second) =
      (Lexer.ofString first).followedBy second.toList := by
    simp [Lexer.ofString, Lexer.followedBy]
  rw [ofString, hjoined] at h
  exact Lexer.errors_of_followedBy hquote hslash h

end JaiFrontend
