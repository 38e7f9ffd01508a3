/-
ModuleLint/Proofs/Lint/Suppression.lean

What one allow directive does.  At the end of a line of a module without directives a
directive with a reason is put in.  It changes no token but for its offset
(`Lexed.sameLines_trailing`), so the module is the same tree and the same expressions offend;
and it exempts its own line and the next one and no other (`allowanceAt_directed`).  So of
the findings just those of the two lines are gone.

Main result: `check_suppressed`.
-/
import ModuleLint.Proofs.Lexical.TrailingComment
import ModuleLint.Proofs.Lint.Directive
import ModuleLint.Proofs.Lint.Invariance
import ModuleLint.Proofs.Tree.Spans

namespace ModuleLint

open UnixObject

variable {before behind reason : List Char} {line : Nat} {t t' : Tree} {id : Nat}

/-! ### Reading the directive -/

/-- What the comment says that exempts from the rule for a reason. -/
def exemption (reason : List Char) : List Char :=
  " bsl-lint: allow(using-object-not-available-unix) reason=\"".toList ++ (reason ++ ['"'])

/-- **A blank and an allow directive** with a reason. -/
def directiveText (reason : List Char) : List Char :=
  " // bsl-lint: allow(using-object-not-available-unix) reason=\"".toList ++ (reason ++ ['"'])

theorem directiveText_eq (reason : List Char) :
    directiveText reason = remarkText (exemption reason) := by
  have hopening : " // bsl-lint: allow(using-object-not-available-unix) reason=\"".toList =
      ' ' :: '/' :: '/' ::
        " bsl-lint: allow(using-object-not-available-unix) reason=\"".toList := rfl
  unfold directiveText remarkText exemption
  rw [hopening, List.cons_append, List.cons_append, List.cons_append]

theorem notMem_exemption (h : '\n' ∉ reason) : '\n' ∉ exemption reason := by
  have hopening : '\n' ∉ " bsl-lint: allow(using-object-not-available-unix) reason=\"".toList := by
    decide
  unfold exemption
  rw [List.mem_append, List.mem_append, List.mem_singleton, not_or, not_or]
  exact ⟨hopening, h, by decide⟩

/-- **The directive is read as it is meant**: for this rule, and for this reason. -/
theorem ofComment?_exemption (hreason : trim reason ≠ []) (hquote : '"' ∉ reason) :
    AllowDirective.ofComment? ('/' :: '/' :: exemption reason) =
      some ⟨[name.toList], some reason⟩ := by
  have hblank : Blanks [' '] := by decide
  have hname : AllowDirective.IsName name.toList :=
    ⟨by decide, by decide, by decide, by decide +kernel⟩
  have hwritable : AllowDirective.Writable ⟨[name.toList], some reason⟩ := by
    refine ⟨List.cons_ne_nil _ _, fun rule hrule => ?_, fun found hfound => ?_⟩
    · obtain rfl := List.mem_singleton.mp hrule
      exact hname
    · obtain rfl := Option.some.inj hfound
      exact ⟨hreason, hquote⟩
  have hrules : AllowDirective.ListsNames [name.toList] ([] ++ (name.toList ++ [])) :=
    .last nofun nofun
  have hopening :
      '/' :: '/' :: " bsl-lint: allow(using-object-not-available-unix) reason=\"".toList =
        AllowDirective.formText [] [' '] [' '] ([] ++ (name.toList ++ []))
          ([' '] ++ ("reason=".toList ++ ['"'])) := by
    decide +kernel
  refine AllowDirective.ofComment?_of_writtenIn hwritable ⟨[], [], [' '], [' '], _, [' '],
    "reason=".toList ++ ([] ++ ('"' :: (reason ++ ['"']))), [], nofun, nofun, hblank, hblank,
    hrules, hblank, ⟨[], nofun, rfl⟩, nofun, ?_⟩
  unfold exemption
  rw [← List.cons_append, ← List.cons_append, hopening, ← AllowDirective.formText_append]
  simp

/-! ### Lines -/

/-- A token without its offset. -/
def Token.withoutOffset (x : Token) : Token :=
  { x with position := { x.position with offset := 0 } }

/-- **The tokens stand at the same lines and columns**, and are the same. -/
def Lexed.SameLines (lexed lexed' : Lexed) : Prop :=
  lexed.tokens.toList.map Token.withoutOffset = lexed'.tokens.toList.map Token.withoutOffset

theorem Lexed.SameLines.kinds {lexed lexed' : Lexed} (h : lexed.SameLines lexed') :
    lexed.kinds = lexed'.kinds := by
  have hkinds := congrArg (List.map Token.kind) h
  rw [List.map_map, List.map_map] at hkinds
  exact hkinds

/-- Trees with the same nodes over the same tokens are the same up to offsets. -/
theorem Lexed.SameLines.sameUpTo (h : t.lexed.SameLines t'.lexed) (hnodes : t.nodes = t'.nodes) :
    t.SameUpTo (fun c => c) t' := by
  refine ⟨hnodes, ?_⟩
  have htexts := congrArg (List.map fun x : Token => x.text.map fun c => c) h
  rw [List.map_map, List.map_map] at htexts
  exact htexts

/-- A node that covers tokens lies at the place of its first token. -/
theorem Tree.span_eq_of_first (hid : id < t.size) {x : Token}
    (hx : t.lexed.tokens[t.firstToken id]? = some x) :
    (t.span id).line = x.position.line ∧ (t.span id).column = x.position.column := by
  rw [span_eq_spanOver hid, spanOver, hx]
  cases t.lexed.tokens[t.endToken id - 1]? with
  | none => exact ⟨rfl, rfl⟩
  | some z =>
    show (if _ then _ else _ : Span).line = _ ∧ (if _ then _ else _ : Span).column = _
    split
    · exact ⟨rfl, rfl⟩
    · exact ⟨rfl, rfl⟩

/-- **A `New` expression stands where it stood**, if the tokens do. -/
theorem Lexed.SameLines.span {source : List Char} {content : List Derivation}
    (h : t.lexed.SameLines t'.lexed) (hnodes : t.nodes = t'.nodes)
    (ht : t.Derived source content) (hnew : t.kind? id = some .newExpression) :
    (t'.span id).line = (t.span id).line ∧ (t'.span id).column = (t.span id).column := by
  have hid := Tree.lt_size_of_kind? hnew
  have hfirst : t'.firstToken id = t.firstToken id := by
    rw [Tree.firstToken, Tree.firstToken, hnodes]
  have hlt : t.firstToken id < t.lexed.tokens.size :=
    (ht.firstToken_lt hid (by rw [hnew]; simp) (by rw [hnew]; simp)).trans_le (ht.endToken_le hid)
  have hx : t.lexed.tokens[t.firstToken id]? = some t.lexed.tokens[t.firstToken id] :=
    Array.getElem?_eq_getElem hlt
  -- the token at its number is the same, but for its offset
  have hsame : (t.lexed.tokens[t.firstToken id]?).map Token.withoutOffset =
      (t'.lexed.tokens[t.firstToken id]?).map Token.withoutOffset := by
    rw [← Array.getElem?_toList, ← Array.getElem?_toList, ← List.getElem?_map,
      ← List.getElem?_map, h]
  rw [hx, Option.map_some, eq_comm, Option.map_eq_some_iff] at hsame
  obtain ⟨y, hy, hxy⟩ := hsame
  have hspan := Tree.span_eq_of_first hid hx
  have hspan' := @Tree.span_eq_of_first t' id (by rw [Tree.size, ← hnodes]; exact hid) y
    (by rw [hfirst]; exact hy)
  have hline := congrArg (fun x : Token => x.position.line) hxy
  have hcolumn := congrArg (fun x : Token => x.position.column) hxy
  rw [hspan.1, hspan.2, hspan'.1, hspan'.2]
  exact ⟨hline, hcolumn⟩

/-! ### Putting in the directive -/

/-- **A directive at the end of a line changes no token** but for its offset, and is the one
comment that is new; it stands on that line. -/
theorem tokenize_directed {lexed : Lexed} (h : tokenize (before ++ behind) = .ok lexed)
    (hline : EndsLine line before behind) (hopen : lexed.OpenAt (byteLength before))
    (hnewline : '\n' ∉ reason) :
    ∃ lexed', tokenize (before ++ (directiveText reason ++ behind)) = .ok lexed' ∧
      lexed.SameLines lexed' ∧
      ∃ first second p, lexed'.trivia.toList =
          first ++ ⟨.comment, '/' :: '/' :: exemption reason, p⟩ :: second ∧ p.line = line ∧
        ∀ c ∈ first ++ second, ∃ x ∈ lexed.trivia, x.kind = c.kind ∧ x.text = c.text := by
  obtain ⟨first, second, rfl, hlexed⟩ :=
    tokenize_trailing h hline.ends hopen (notMem_exemption hnewline)
  rw [← directiveText_eq] at hlexed
  refine ⟨_, hlexed, ?_, first.trivia.toList,
    (second.moved (byteLength (directiveText reason)) 0).trivia.toList,
    (Position.start.after before).next ' ', ?_, ?_, ?_⟩
  · have hmoved : ∀ bytes, (second.tokens.toList.map (·.moved bytes 0)).map Token.withoutOffset =
        second.tokens.toList.map Token.withoutOffset := by
      intro bytes
      rw [List.map_map]
      rfl
    simp [Lexed.SameLines, Lexed.tokens_append, Lexed.tokens_moved, hmoved]
  · simp [Lexed.trivia_append]
  · have hblank : ((Position.start.after before).next ' ').line =
        (Position.start.after before).line := rfl
    rw [hblank, Position.line_after, hline.number, Nat.add_comm]
    rfl
  · intro c hc
    rcases List.mem_append.mp hc with hc | hc
    · exact ⟨c, Array.mem_append_left _ (Array.mem_toList_iff.mp hc), rfl, rfl⟩
    · obtain ⟨x, hx, rfl⟩ := Array.mem_map.mp (Array.mem_toList_iff.mp hc)
      exact ⟨x, Array.mem_append_right _ hx, rfl, rfl⟩

/-- A value that is there at one number only is found if the number is looked at. -/
theorem findSome?_ite {α : Type} (a : α) (numbers : List Nat) :
    numbers.findSome? (fun m => if m = line then some a else none) =
      if line ∈ numbers then some a else none := by
  induction numbers with
  | nil => rfl
  | cons m numbers ih =>
    by_cases hm : m = line
    · simp [hm]
    · simp [hm, Ne.symm hm, ih]

/-- **The directive exempts from the rule on its line and on the next one**, and on no other. -/
theorem allowanceAt_directed {first second : List Trivia} {p : Position}
    (htrivia : t'.lexed.trivia.toList =
      first ++ ⟨.comment, '/' :: '/' :: exemption reason, p⟩ :: second)
    (hfree : ∀ c ∈ first ++ second, c.kind = .comment → AllowDirective.ofComment? c.text = none)
    (hreason : trim reason ≠ []) (hquote : '"' ∉ reason) (hline : p.line = line)
    (hpos : line ≠ 0) (n : Nat) :
    allowanceAt t' n name.toList =
      if n = line ∨ n = line + 1 then .allowed (some reason) else .denied := by
  -- on its line it is the only directive, and on the other lines there is none
  have hdirective : ∀ m, directiveOn t' name.toList m =
      if m = line then some ⟨[name.toList], some reason⟩ else none := by
    intro m
    have hfirst := directives_eq_nil (fun c hc => hfree c (List.mem_append_left _ hc)) m
    have hsecond := directives_eq_nil (fun c hc => hfree c (List.mem_append_right _ hc)) m
    rw [directiveOn, Tree.commentsOnLine, htrivia, List.filter_append, List.map_append,
      List.filterMap_append, hfirst, List.nil_append, List.filter_cons, hline]
    by_cases hm : m = line
    · have hcovers : AllowDirective.covers ⟨[name.toList], some reason⟩ name.toList = true := by
        simp [AllowDirective.covers]
      rw [if_pos hm, if_pos (by simp [hm]), List.map_cons, List.filterMap_cons,
        ofComment?_exemption hreason hquote, hsecond]
      exact List.find?_cons_of_pos hcovers
    · rw [if_neg hm, if_neg (by simp [Ne.symm hm]), hsecond]
      rfl
  -- so it is found if its line is looked at
  have hlooked : line ∈ [n, n - 1].filter (fun m => m != 0) ↔ n = line ∨ n = line + 1 := by
    simp only [List.mem_filter, List.mem_cons, List.not_mem_nil, or_false, bne_iff_ne]
    omega
  have hfound : ([n, n - 1].filter fun m => m != 0).findSome? (directiveOn t' name.toList) =
      if n = line ∨ n = line + 1 then some ⟨[name.toList], some reason⟩ else none := by
    rw [funext hdirective, findSome?_ite]
    exact if_congr hlooked rfl rfl
  simp only [allowanceAt, hfound]
  by_cases hexempt : n = line ∨ n = line + 1
  · rw [if_pos hexempt, if_pos hexempt]
  · rw [if_neg hexempt, if_neg hexempt]

/-! ### Findings -/

/-- A finding without the bytes that it covers. -/
def Finding.withoutBytes (f : Finding) : Finding :=
  { f with location := { f.location with offset := 0, length := 0 } }

/-- The same denial, but for the bytes. -/
theorem withoutBytes_denial {r : UnixObject} {file : FileContext} {typeName : List Char}
    (hspan : (t'.span id).line = (t.span id).line ∧ (t'.span id).column = (t.span id).column) :
    (denial r file t' id typeName).withoutBytes = (denial r file t id typeName).withoutBytes := by
  unfold denial Finding.withoutBytes Location.ofSpan
  rw [hspan.1, hspan.2]

/-- **At each node** the verdict is what it was, or there is none any more. -/
theorem verdict_directed {r : UnixObject} {file : FileContext} {source : List Char}
    {content : List Derivation} (ht : t.Derived source content) (hfree : t.Undirected)
    (hnodes : t.nodes = t'.nodes) (hlines : t.lexed.SameLines t'.lexed)
    (hallow : ∀ n, allowanceAt t' n name.toList =
      if n = line ∨ n = line + 1 then .allowed (some reason) else .denied) (id : Nat) :
    (verdict r file t' id).map Finding.withoutBytes =
      ((verdict r file t id).filter fun f =>
        f.location.line ≠ line ∧ f.location.line ≠ line + 1).map Finding.withoutBytes := by
  have hoffence : offence? r t id = offence? r t' id := by
    simpa using map_offence? (hlines.sameUpTo hnodes) (fun c d hcd => congrArg foldChar hcd) r id
  rw [verdict_eq, verdict_eq, ← hoffence]
  cases hname : offence? r t id with
  | none => rfl
  | some typeName =>
    have hspan := hlines.span hnodes ht ((offence?_eq_some_iff ht).mp hname).isNew
    have hdenied : report r file t id typeName = [denial r file t id typeName] :=
      report_of_denied (allowanceAt_of_undirected hfree _ _)
    have hplace : (denial r file t id typeName).location.line = (t.span id).line := rfl
    show (report r file t' id typeName).map Finding.withoutBytes =
      ((report r file t id typeName).filter _).map Finding.withoutBytes
    rw [hdenied]
    by_cases hexempt : (t.span id).line = line ∨ (t.span id).line = line + 1
    · have hgone : report r file t' id typeName = [] := by
        apply report_of_reason
        rw [hspan.1, hallow, if_pos hexempt]
      rw [hgone, List.filter_cons_of_neg]
      · rfl
      · rw [hplace, decide_eq_true_iff, ← not_or]
        exact fun hnot => hnot hexempt
    · have hkept : report r file t' id typeName = [denial r file t' id typeName] := by
        apply report_of_denied
        rw [hspan.1, hallow, if_neg hexempt]
      rw [hkept, List.filter_cons_of_pos]
      · show [_] = [_]
        rw [withoutBytes_denial hspan]
      · rw [hplace, decide_eq_true_iff, ← not_or]
        exact hexempt

/-- **An allow directive suppresses exactly two lines.**  Put at the end of a line of a module
without directives, it leaves the tree as it is, and of the findings those of its own line
and of the next one are gone, and no others; the others tell what they told. -/
theorem check_suppressed (r : UnixObject) (file : FileContext)
    (h : parse (before ++ behind) = .ok t) (hfree : t.Undirected)
    (hline : EndsLine line before behind) (hopen : t.lexed.OpenAt (byteLength before))
    (hreason : trim reason ≠ []) (hquote : '"' ∉ reason) (hnewline : '\n' ∉ reason) :
    ∃ t', parse (before ++ (directiveText reason ++ behind)) = .ok t' ∧ t.nodes = t'.nodes ∧
      (r.check file t').map Finding.withoutBytes =
        ((r.check file t).filter fun f =>
          f.location.line ≠ line ∧ f.location.line ≠ line + 1).map Finding.withoutBytes := by
  obtain ⟨content, hcontent⟩ := parse_derived h
  obtain ⟨lexed', hlexed', hlines, first, second, p, htrivia, hp, hothers⟩ :=
    tokenize_directed hcontent.lexed hline hopen hnewline
  obtain ⟨t', ht', rfl, hnodes⟩ := exists_parse_of_kinds h hlexed' hlines.kinds
  obtain ⟨content', hcontent'⟩ := parse_derived ht'
  have hnone : ∀ c ∈ first ++ second, c.kind = .comment →
      AllowDirective.ofComment? c.text = none := by
    intro c hc hkind
    obtain ⟨x, hx, hxkind, hxtext⟩ := hothers c hc
    rw [← hxtext]
    exact hfree x hx (hxkind.trans hkind)
  have hpos : line ≠ 0 := by
    rw [hline.number]
    exact Nat.succ_ne_zero _
  have hallow := allowanceAt_directed htrivia hnone hreason hquote hp hpos
  refine ⟨t', ht', hnodes, ?_⟩
  rw [check_eq_flatMap hcontent, check_eq_flatMap hcontent', Tree.descendants_congr hnodes,
    List.map_flatMap, List.filter_flatMap, List.map_flatMap]
  congr 1
  funext id
  exact verdict_directed hcontent hfree hnodes hlines hallow id

/-- A line that creates a mail object. -/
def firstMail : List Char := "A = New Mail;".toList

/-- Two more of them. -/
def laterMails : List Char := "\nB = New Mail;\nC = New Mail;".toList

theorem parse_threeMails : (parse (firstMail ++ laterMails)).isOk = true := by decide +kernel

/-- Of three findings the one on the third line is left. -/
theorem check_suppressed_mails : ∃ t, parse (firstMail ++ laterMails) = .ok t ∧ t.Undirected ∧
    EndsLine 1 firstMail laterMails ∧ t.lexed.OpenAt (byteLength firstMail) ∧
    trim "why".toList ≠ [] ∧ '"' ∉ "why".toList ∧ '\n' ∉ "why".toList ∧
    (check .default ⟨"a.bsl", .bsl, .en⟩ t).map (fun f => f.location.line) = [1, 2, 3] ∧
    ∃ t', parse (firstMail ++ (directiveText "why".toList ++ laterMails)) = .ok t' ∧
      t.nodes = t'.nodes ∧
      (check .default ⟨"a.bsl", .bsl, .en⟩ t').map Finding.withoutBytes =
        ((check .default ⟨"a.bsl", .bsl, .en⟩ t).filter fun f =>
          f.location.line ≠ 1 ∧ f.location.line ≠ 1 + 1).map Finding.withoutBytes := by
  obtain ⟨t, ht⟩ := exists_of_isOk parse_threeMails
  have hfacts : ∀ t ∈ (parse (firstMail ++ laterMails)).toOption, t.Undirected ∧
      (∀ x ∈ t.lexed.tokens, x.kind = .string →
        ¬ (x.range.start < byteLength firstMail ∧ byteLength firstMail < x.range.stop)) ∧
      (∀ c ∈ t.lexed.trivia,
        ¬ (c.range.start ≤ byteLength firstMail ∧ byteLength firstMail ≤ c.range.stop)) ∧
      (check .default ⟨"a.bsl", .bsl, .en⟩ t).map (fun f => f.location.line) = [1, 2, 3] := by
    decide +kernel
  obtain ⟨hfree, hstring, htrivia, hlines⟩ := hfacts t (by rw [ht]; rfl)
  have hline : EndsLine 1 firstMail laterMails :=
    ⟨by decide +kernel, .inr ⟨"B = New Mail;\nC = New Mail;".toList, by decide +kernel⟩⟩
  have hreason : trim "why".toList ≠ [] := by decide +kernel
  have hquote : '"' ∉ "why".toList := by decide +kernel
  have hnewline : '\n' ∉ "why".toList := by decide +kernel
  exact ⟨t, ht, hfree, hline, ⟨hstring, htrivia⟩, hreason, hquote, hnewline, hlines,
    check_suppressed .default ⟨"a.bsl", .bsl, .en⟩ ht hfree hline ⟨hstring, htrivia⟩ hreason hquote
      hnewline⟩

end ModuleLint
