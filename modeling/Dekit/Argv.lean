import Mathlib.Data.List.Basic

/-! `parse_shell.rs` and `spec.rs`: a `cmd` line as an argv, read and written as a shell would. -/

namespace Dekit

/-- Why `split_argv` refuses a line. -/
inductive SplitError
  | newline
  | singleQuote
  | doubleQuote
  | expands (c : Char)
  | trailing
  | unsupported (c : Char)
  | assignment (name : String)
  | keyword (word : String)
  | empty
deriving DecidableEq, Repr

def backquote : Char := Char.ofNat 0x60

def codeOf (c : Char) : String :=
  if c = backquote then "`` ` ``" else "`" ++ String.singleton c ++ "`"

def unsupportedText (c : Char) : String :=
  let what :=
    if c = '$' then "variables"
    else if c = backquote then "command substitution"
    else if c = '#' then "comments"
    else if c = '~' then "home directory expansion"
    else if c = '*' ∨ c = '?' ∨ c = '[' then "globs"
    else "operators"
  codeOf c ++ " needs quotes: cmd runs one program without a shell, so it has no " ++ what ++
    "; to use a shell, run one, as in `bash -c '...'`"

namespace SplitError

def message : SplitError → String
  | newline => "a newline would end the command in a shell; cmd runs one program, so keep it " ++
      "on one line or end the line with `\\`"
  | singleQuote => "missing closing single quote"
  | doubleQuote => "missing closing double quote"
  | expands c => codeOf c ++ " inside \"...\" would expand in a shell; escape it with `\\`, " ++
      "or use '...'"
  | trailing => "a trailing `\\` escapes nothing"
  | unsupported c => unsupportedText c
  | assignment name => "`" ++ name ++ "=` would set a variable in a shell; cmd runs one program " ++
      "without a shell, so set it in `env`, or quote the word"
  | keyword word => "`" ++ word ++ "` is a shell keyword; cmd runs one program without a shell, " ++
      "so quote it to run a program named `" ++ word ++ "`"
  | empty => "cmd string is empty"

end SplitError

/-- `RESERVED`: sh's reserved words, special only as the program. -/
def reserved : List String :=
  ["!", "\x7b", "\x7d", "case", "do", "done", "elif", "else", "esac", "fi", "for", "if", "in",
    "then", "until", "while"]

def isName : List Char → Bool
  | [] => false
  | c :: cs => (c.isAlpha || c == '_') && cs.all (fun d => d.isAlphanum || d == '_')

def endWord (args : List String) (word : List Char) (quoted : Bool) :
    Except SplitError (List String) :=
  if args.isEmpty && !quoted && reserved.contains (String.ofList word) then
    .error (.keyword (String.ofList word))
  else .ok (args ++ [String.ofList word])

/-- The word at hand, if there is one: a quote makes a word even of nothing. -/
def closeWord (args : List String) (cur : List Char) (quoted : Bool) :
    Except SplitError (List String) :=
  if quoted || !cur.isEmpty then endWord args cur quoted else .ok args

def isBlank (c : Char) : Bool := c == ' ' || c == '\t' || c == '\n'

def isEscaped (c : Char) : Bool :=
  c == '"' || c == '\\' || c == '$' || c == backquote

def isOperator (c : Char) : Bool :=
  c == '|' || c == '&' || c == ';' || c == '<' || c == '>' || c == '(' || c == ')' || c == '$' ||
    c == backquote || c == '*' || c == '?' || c == '['

mutual

/-- The loop of `split_argv` over the characters left, outside quotes. -/
def splitFrom (args : List String) (cur : List Char) (quoted : Bool) :
    List Char → Except SplitError (List String)
  | [] => do
    let args ← closeWord args cur quoted
    if args.isEmpty then throw .empty
    return args
  | c :: cs =>
    if isBlank c then do
      let args ← closeWord args cur quoted
      if c == '\n' && !args.isEmpty && !cs.all isBlank then throw .newline
      splitFrom args [] false cs
    else if c = '\'' then splitSingle args cur cs
    else if c = '"' then splitDouble args cur cs
    else if c = '\\' then
      match cs with
      | [] => .error .trailing
      | d :: ds =>
        if d = '\n' then splitFrom args cur quoted ds else splitFrom args (cur ++ [d]) true ds
    else if (c = '#' ∨ c = '~') ∧ !quoted ∧ cur.isEmpty then .error (.unsupported c)
    else if isOperator c then .error (.unsupported c)
    else if c = '=' ∧ args.isEmpty ∧ !quoted ∧ isName cur then
      .error (.assignment (String.ofList cur))
    else splitFrom args (cur ++ [c]) quoted cs

def splitSingle (args : List String) (cur : List Char) :
    List Char → Except SplitError (List String)
  | [] => .error .singleQuote
  | c :: cs => if c = '\'' then splitFrom args cur true cs else splitSingle args (cur ++ [c]) cs

def splitDouble (args : List String) (cur : List Char) :
    List Char → Except SplitError (List String)
  | [] => .error .doubleQuote
  | c :: cs =>
    if c = '"' then splitFrom args cur true cs
    else if c = '\\' then
      match cs with
      | [] => .error .doubleQuote
      | d :: ds =>
        if isEscaped d then splitDouble args (cur ++ [d]) ds
        else if d = '\n' then splitDouble args cur ds
        else splitDouble args (cur ++ ['\\', d]) ds
    else if c = '$' ∨ c = backquote then .error (.expands c)
    else splitDouble args (cur ++ [c]) cs

end

def splitArgv (s : String) : Except SplitError (List String) := splitFrom [] [] false s.toList

/-- Characters `join_argv` leaves bare. Letters and digits outside ASCII count as not ASCII. -/
def isPlain (c : Char) : Bool :=
  c.isAlphanum || "-_./:=,+@%^~".toList.contains c || decide (127 < c.val)

def escapeIn (c : Char) : List Char := if isEscaped c then ['\\', c] else [c]

def quoteWord (i : ℕ) (arg : String) : String :=
  let plain := !arg.isEmpty && !(arg.toList.head? == some '~') && arg.toList.all isPlain &&
    (decide (0 < i) || match splitArgv arg with
      | .ok words => words == [arg]
      | .error _ => false)
  if plain then arg
  else if !arg.toList.contains '\'' then "'" ++ arg ++ "'"
  else "\"" ++ String.ofList (arg.toList.flatMap escapeIn) ++ "\""

def joinArgv (argv : List String) : String := " ".intercalate (argv.mapIdx quoteWord)

/-! The two readers at one character. -/

theorem splitFrom_cons (args : List String) (cur : List Char) (quoted : Bool) (c : Char)
    (cs : List Char) (hb : isBlank c = false) (hc : c ≠ '\\') :
    splitFrom args cur quoted (c :: cs) =
      if c = '\'' then splitSingle args cur cs
      else if c = '"' then splitDouble args cur cs
      else if (c = '#' ∨ c = '~') ∧ !quoted ∧ cur.isEmpty then .error (.unsupported c)
      else if isOperator c then .error (.unsupported c)
      else if c = '=' ∧ args.isEmpty ∧ !quoted ∧ isName cur then
        .error (.assignment (String.ofList cur))
      else splitFrom args (cur ++ [c]) quoted cs := by
  rw [splitFrom.eq_def]
  simp [hb, hc]

theorem splitFrom_nil (args : List String) (cur : List Char) (quoted : Bool) :
    splitFrom args cur quoted [] =
      (closeWord args cur quoted).bind fun args => if args = [] then .error .empty else .ok args := by
  cases hclose : closeWord args cur quoted with
  | error e => rw [splitFrom, hclose]; rfl
  | ok words => cases words <;> (rw [splitFrom, hclose]; rfl)

theorem splitFrom_space (args : List String) (cur : List Char) (quoted : Bool) (cs : List Char) :
    splitFrom args cur quoted (' ' :: cs) =
      (closeWord args cur quoted).bind fun args => splitFrom args [] false cs := by
  rw [splitFrom.eq_def]
  simp [isBlank]
  rfl

theorem splitDouble_cons (args : List String) (cur : List Char) (c : Char) (cs : List Char)
    (hc : c ≠ '\\') :
    splitDouble args cur (c :: cs) =
      if c = '"' then splitFrom args cur true cs
      else if c = '$' ∨ c = backquote then .error (.expands c)
      else splitDouble args (cur ++ [c]) cs := by
  rw [splitDouble.eq_def]
  simp [hc]

/-! A quoted word is read back as it was. -/

theorem splitSingle_append (args : List String) (cur w rest : List Char) (h : '\'' ∉ w) :
    splitSingle args cur (w ++ '\'' :: rest) = splitFrom args (cur ++ w) true rest := by
  induction w generalizing cur with
  | nil => simp [splitSingle]
  | cons c w ih =>
    have hc : c ≠ '\'' := fun hc => h (by simp [hc])
    simp [splitSingle, hc, ih _ (fun hw => h (List.mem_cons_of_mem _ hw))]

theorem splitDouble_escapeIn (args : List String) (cur w rest : List Char) :
    splitDouble args cur (w.flatMap escapeIn ++ '"' :: rest) =
      splitFrom args (cur ++ w) true rest := by
  induction w generalizing cur with
  | nil => simp [splitDouble_cons]
  | cons c w ih =>
    rw [List.flatMap_cons, List.append_assoc]
    by_cases hc : isEscaped c
    · simp [escapeIn, hc, splitDouble, ih]
    · have hp : c ≠ '"' ∧ c ≠ '\\' ∧ c ≠ '$' ∧ c ≠ backquote := by simpa [isEscaped, and_assoc] using hc
      simp [escapeIn, hc, splitDouble_cons, hp, ih]

/-! A bare word. -/

theorem isPlain_ordinary {c : Char} (h : isPlain c) :
    isBlank c = false ∧ c ≠ '\'' ∧ c ≠ '"' ∧ c ≠ '\\' ∧ c ≠ '#' ∧ isOperator c = false := by
  have hno (d : Char) (hd : isPlain d = false) : c ≠ d := by rintro rfl; simp [hd] at h
  have hop : isOperator c = false := by
    simp only [isOperator, Bool.or_eq_false_iff, beq_eq_false_iff_ne]
    refine ⟨⟨⟨⟨⟨⟨⟨⟨⟨⟨⟨?_, ?_⟩, ?_⟩, ?_⟩, ?_⟩, ?_⟩, ?_⟩, ?_⟩, ?_⟩, ?_⟩, ?_⟩, ?_⟩ <;> exact hno _ (by decide)
  have hblank : isBlank c = false := by
    simp only [isBlank, Bool.or_eq_false_iff, beq_eq_false_iff_ne]
    refine ⟨⟨?_, ?_⟩, ?_⟩ <;> exact hno _ (by decide)
  exact ⟨hblank, hno _ (by decide), hno _ (by decide), hno _ (by decide), hno _ (by decide), hop⟩

theorem splitFrom_plain (args : List String) (cur : List Char) {c : Char} (cs : List Char)
    (hp : isPlain c) (ht : cur ≠ [] ∨ c ≠ '~') :
    splitFrom args cur false (c :: cs) =
      if c = '=' ∧ args.isEmpty ∧ isName cur then .error (.assignment (String.ofList cur))
      else splitFrom args (cur ++ [c]) false cs := by
  obtain ⟨hb, hs, hd, hbs, hh, hop⟩ := isPlain_ordinary hp
  have htilde : ¬ (c = '~' ∧ cur = []) := fun h => ht.elim (· h.2) (· h.1)
  simp [splitFrom_cons _ _ _ _ _ hb hbs, hs, hd, hh, hop, htilde]

theorem splitFrom_argument (args : List String) (cur w rest : List Char) (ha : args ≠ [])
    (hw : ∀ c ∈ w, isPlain c) (ht : cur ≠ [] ∨ w.head? ≠ some '~') :
    splitFrom args cur false (w ++ rest) = splitFrom args (cur ++ w) false rest := by
  induction w generalizing cur with
  | nil => simp
  | cons c w ih =>
    have hempty : args.isEmpty = false := by simpa using ha
    have hc : cur ≠ [] ∨ c ≠ '~' := by simpa using ht
    rw [List.cons_append, splitFrom_plain _ _ _ (hw c (by simp)) hc]
    simp [hempty, ih (cur ++ [c]) (fun d hd => hw d (List.mem_cons_of_mem _ hd)) (.inl (by simp))]

theorem splitFrom_program (cur w rest : List Char) {words : List String} (hw : ∀ c ∈ w, isPlain c)
    (ht : cur ≠ [] ∨ w.head? ≠ some '~') (hne : cur ++ w ≠ [])
    (h : splitFrom [] cur false w = .ok words) :
    splitFrom [] cur false (w ++ rest) = splitFrom [] (cur ++ w) false rest ∧
      closeWord [] (cur ++ w) false = .ok [String.ofList (cur ++ w)] := by
  induction w generalizing cur with
  | nil =>
    have hcur : cur.isEmpty = false := by simpa using hne
    refine ⟨by simp, ?_⟩
    rw [splitFrom_nil, closeWord, hcur] at h
    rw [closeWord, List.append_nil, hcur]
    simp only [endWord, List.isEmpty_nil, Bool.not_false, Bool.or_true, Bool.and_self,
      Bool.true_and, if_true, List.nil_append] at h ⊢
    split at h
    · simp [Except.bind] at h
    · next hres => rw [if_neg hres]
  | cons c w ih =>
    have hc : cur ≠ [] ∨ c ≠ '~' := by simpa using ht
    have hp : isPlain c := hw c (by simp)
    rw [splitFrom_plain _ _ _ hp hc] at h
    rw [List.cons_append, splitFrom_plain _ _ _ hp hc]
    split at h
    · simp at h
    · next hassign =>
      have hrest := ih (cur ++ [c]) (fun d hd => hw d (List.mem_cons_of_mem _ hd)) (.inl (by simp))
        (by simp) h
      rw [if_neg hassign]
      simpa using hrest

theorem splitFrom_quoteWord (args : List String) (arg : String) (rest : List Char) :
    ∃ quoted, splitFrom args [] false ((quoteWord args.length arg).toList ++ rest) =
        splitFrom args arg.toList quoted rest ∧
      closeWord args arg.toList quoted = .ok (args ++ [arg]) := by
  unfold quoteWord
  extract_lets plain
  split
  · next hplain =>
    simp only [plain, Bool.and_eq_true, Bool.or_eq_true, decide_eq_true_eq] at hplain
    obtain ⟨⟨⟨hne, htilde⟩, hall⟩, hfirst⟩ := hplain
    have hw : ∀ c ∈ arg.toList, isPlain c := by simpa using hall
    have hhead : arg.toList.head? ≠ some '~' := by simpa using htilde
    have hnil : arg.toList ≠ [] := by simpa using hne
    have hempty : arg.toList.isEmpty = false := by simpa using hnil
    refine ⟨false, ?_⟩
    rcases eq_or_ne args [] with rfl | ha
    · cases hsplit : splitArgv arg with
      | error e => simp [hsplit] at hfirst
      | ok words => simpa using splitFrom_program [] _ rest hw (.inr hhead) (by simpa using hnil) hsplit
    · have ha' : args.isEmpty = false := by simpa using ha
      refine ⟨by simpa using splitFrom_argument args [] _ rest ha hw (.inr hhead), ?_⟩
      simp [closeWord, endWord, ha', hempty]
  · refine ⟨true, ?_, by simp [closeWord, endWord]⟩
    split
    · next hq =>
      have hq' : '\'' ∉ arg.toList := by simpa using hq
      simpa [splitFrom_cons, isBlank] using splitSingle_append args [] _ rest hq'
    · simpa [splitFrom_cons, isBlank] using splitDouble_escapeIn args [] arg.toList rest

theorem splitFrom_join (args argv : List String) (hne : argv ≠ []) :
    splitFrom args [] false
        (" ".intercalate (argv.mapIdx fun i => quoteWord (args.length + i))).toList =
      .ok (args ++ argv) := by
  induction argv generalizing args with
  | nil => exact absurd rfl hne
  | cons arg argv ih =>
    rcases eq_or_ne argv [] with rfl | hrest
    · obtain ⟨quoted, hword, hclose⟩ := splitFrom_quoteWord args arg []
      rw [List.append_nil] at hword
      simp [hword, splitFrom_nil, hclose, Except.bind]
    · obtain ⟨quoted, hword, hclose⟩ := splitFrom_quoteWord args arg
        (' ' :: (" ".intercalate (argv.mapIdx fun i => quoteWord (args.length + (i + 1)))).toList)
      have hnext := ih (args ++ [arg]) hrest
      rw [List.mapIdx_cons, String.intercalate_cons_of_ne_nil (by simpa using hrest)]
      simp only [Nat.add_zero, String.toList_append, List.append_assoc]
      refine hword.trans ?_
      rw [splitFrom_space, hclose]
      simpa [Except.bind, Nat.add_assoc, Nat.add_comm 1] using hnext

theorem ok_of_bind {ε α β : Type} {x : Except ε α} {f : α → Except ε β} {b : β}
    (h : x.bind f = .ok b) : ∃ a, x = .ok a ∧ f a = .ok b := by
  cases x with
  | error e => simp [Except.bind] at h
  | ok a => exact ⟨a, rfl, h⟩

theorem split_ne_nil :
    (∀ args cur quoted cs argv, splitFrom args cur quoted cs = .ok argv → argv ≠ []) ∧
    (∀ args cur cs argv, splitDouble args cur cs = .ok argv → argv ≠ []) ∧
    (∀ args cur cs argv, splitSingle args cur cs = .ok argv → argv ≠ []) := by
  apply splitFrom.mutual_induct
    (fun args cur quoted cs => ∀ argv, splitFrom args cur quoted cs = .ok argv → argv ≠ [])
    (fun args cur cs => ∀ argv, splitDouble args cur cs = .ok argv → argv ≠ [])
    (fun args cur cs => ∀ argv, splitSingle args cur cs = .ok argv → argv ≠ [])
  case case1 =>
    intro args cur quoted argv h
    rw [splitFrom_nil] at h
    obtain ⟨words, -, h⟩ := ok_of_bind h
    split at h <;> simp_all
  case case2 =>
    intro args cur quoted c cs hb ih argv h
    rw [splitFrom.eq_def] at h
    simp only [hb, if_true] at h
    obtain ⟨words, -, h⟩ := ok_of_bind h
    split at h
    · obtain ⟨-, h, -⟩ := ok_of_bind h
      cases h
    · exact ih _ _ h
  case case11 =>
    intro args cur quoted c cs hb hs hd hbs htilde hop hassign ih argv h
    rw [splitFrom_cons _ _ _ _ _ (by simpa using hb) hbs, if_neg hs, if_neg hd, if_neg htilde,
      if_neg hop, if_neg hassign] at h
    exact ih _ h
  -- Every other character is refused or handed on.
  all_goals
    intros
    rename_i h
    first
    | rw [splitFrom.eq_def] at h
    | rw [splitDouble.eq_def] at h
    | rw [splitSingle.eq_def] at h
    simp_all

/-- What `join_argv` writes of an argv is read back as that argv, and so for the argv of any line. -/
theorem splitArgv_joinArgv :
    (∀ argv : List String, argv ≠ [] → splitArgv (joinArgv argv) = .ok argv) ∧
    (∀ line argv, splitArgv line = .ok argv → splitArgv (joinArgv argv) = .ok argv) := by
  have hjoin (argv : List String) (hne : argv ≠ []) : splitArgv (joinArgv argv) = .ok argv := by
    simpa [joinArgv, splitArgv] using splitFrom_join [] argv hne
  refine ⟨hjoin, fun line argv h => hjoin argv ?_⟩
  exact split_ne_nil.1 _ _ _ _ _ h

theorem splitArgv_joinArgv_empty : splitArgv (joinArgv [""]) = .ok [""] ∧
    (splitArgv "a ''" = .ok ["a", ""] ∧ splitArgv (joinArgv ["a", ""]) = .ok ["a", ""]) :=
  ⟨splitArgv_joinArgv.1 [""] (by decide), rfl, splitArgv_joinArgv.2 "a ''" ["a", ""] rfl⟩

example : joinArgv ["FOO=1", "it's", "a~b"] = "'FOO=1' \"it's\" a~b" := by decide

end Dekit
