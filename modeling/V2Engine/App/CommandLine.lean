import V2Engine.App.CliApp

/-! What the client sends and what the daemon reads. The client separates arguments by spaces
and takes those apart that have an equals sign; the daemon separates at spaces. -/
namespace App

open Service Text

/-- What the daemon makes of one argument. -/
def received (a : Str) : List Str := Text.words ' ' (CliApp.encodeArg a)

theorem encodeArg_cons (a : Str) : ∃ body, CliApp.encodeArg a = ' ' :: body := by
  unfold CliApp.encodeArg
  split
  · exact ⟨_, rfl⟩
  · exact ⟨_, rfl⟩

theorem received_plain {a : Str} (hEq : '=' ∉ a) : received a = Text.words ' ' a := by
  rw [received, CliApp.encodeArg, if_neg hEq]
  exact Text.words_cons a

/-- An argument with an equals sign becomes an option and a value. -/
theorem received_option {a : Str} (hEq : '=' ∈ a) :
    received a = Text.words ' ' ("--".toList ++ a.takeWhile (· ≠ '=')) ++
      Text.words ' ' (a.dropWhile (· ≠ '=')).tail := by
  rw [received, CliApp.encodeArg, if_pos hEq, ← Text.words_append_cons]
  have hFirst : " --".toList = ' ' :: "--".toList := by decide
  have hSpace : " ".toList = [' '] := by decide
  rw [hFirst, hSpace, List.cons_append, List.cons_append, List.cons_append, Text.words_cons,
    List.append_assoc, List.append_assoc, List.singleton_append]
  rw [List.append_assoc]

/-- The daemon finds the handler, and for each argument what becomes of it. -/
theorem parse_eq (handler : CmdActor.Handler) (args : List Str) :
    CmdActor.parse (handler.name ++ args.flatMap CliApp.encodeArg) = .ok (handler, args.flatMap received) := by
  have hNoBlank : handler.name.all (fun x => x != ' ') = true := by cases handler <;> decide +kernel
  have hName : ∀ x ∈ handler.name, x ≠ ' ' := by simpa using hNoBlank
  have hFound : CmdActor.findHandler handler.name = some handler := by cases handler <;> decide +kernel
  have hTake : ∀ rest : Str, (handler.name ++ ' ' :: rest).takeWhile (· ≠ ' ') = handler.name := by
    intro rest
    rw [List.takeWhile_append_of_pos (by simpa using hName)]
    simp
  have hDrop : ∀ rest : Str, (handler.name ++ ' ' :: rest).dropWhile (· ≠ ' ') = ' ' :: rest := by
    intro rest
    rw [List.dropWhile_append_of_pos (by simpa using hName)]
    simp
  have hWords := Text.words_flatMap encodeArg_cons args
  cases args with
  | nil =>
      have hAll : handler.name.takeWhile (· ≠ ' ') = handler.name :=
        List.takeWhile_eq_self_iff.mpr (by simpa using hName)
      have hNone : handler.name.dropWhile (· ≠ ' ') = [] :=
        List.dropWhile_eq_nil_iff.mpr (by simpa using hName)
      rw [List.flatMap_nil, List.append_nil, CmdActor.parse, hAll, hFound, hNone]
      rfl
  | cons a args =>
      obtain ⟨body, hBody⟩ := encodeArg_cons a
      rw [List.flatMap_cons, hBody, List.cons_append] at hWords ⊢
      rw [CmdActor.parse, hTake, hFound, hDrop]
      dsimp only
      rw [CmdActor.splitArgs_eq, ← Text.words_cons, hWords]
      rfl

theorem length_le_flatMap {α : Type*} {f : α → List α} {xs : List α} (hSome : ∀ x ∈ xs, 0 < (f x).length) :
    xs.length ≤ (xs.flatMap f).length := by
  induction xs with
  | nil => exact Nat.le_refl _
  | cons y xs ih =>
      have hFirst := hSome y (List.mem_cons_self ..)
      have hRest := ih fun x hx => hSome x (List.mem_cons_of_mem _ hx)
      rw [List.flatMap_cons, List.length_append, List.length_cons]
      omega

/-- If every element gives at least one and all together give the elements again, then each
gives itself. -/
theorem eq_singleton_of_flatMap {α : Type*} {f : α → List α} {xs : List α} (hSome : ∀ x ∈ xs, 0 < (f x).length)
    (h : xs.flatMap f = xs) : ∀ x ∈ xs, f x = [x] := by
  induction xs with
  | nil => exact fun x => nofun
  | cons y xs ih =>
      have hFirst := hSome y (List.mem_cons_self ..)
      have hMore : ∀ x ∈ xs, 0 < (f x).length := fun x hx => hSome x (List.mem_cons_of_mem _ hx)
      have hRest := length_le_flatMap hMore
      rw [List.flatMap_cons] at h
      have hTotal := congrArg List.length h
      rw [List.length_append, List.length_cons] at hTotal
      obtain ⟨z, hz⟩ := List.length_eq_one_iff.mp (by omega : (f y).length = 1)
      rw [hz, List.singleton_append, List.cons.injEq] at h
      obtain ⟨rfl, hSame⟩ := h
      intro x hx
      rcases List.mem_cons.mp hx with rfl | hx
      · exact hz
      · exact ih hMore hSame x hx

theorem not_mem_takeWhile_ne {a : Str} : '=' ∉ a.takeWhile (· ≠ '=') := by
  intro hMem
  simpa using List.mem_takeWhile_imp hMem

theorem option_eq_singleton {a : Str} (hSpace : ' ' ∉ a) :
    Text.words ' ' ("--".toList ++ a.takeWhile (· ≠ '=')) = ["--".toList ++ a.takeWhile (· ≠ '=')] := by
  apply Text.words_eq_singleton
  · rw [List.mem_append, not_or]
    exact ⟨by decide, fun hMem => hSpace ((List.takeWhile_sublist _).subset hMem)⟩
  · exact List.append_ne_nil_of_left_ne_nil (by decide) _

/-- An argument without a space that is received as it is has no equals sign. -/
theorem received_eq_singleton {a : Str} (hSpace : ' ' ∉ a) (h : received a = [a]) : '=' ∉ a := by
  intro hEq
  rw [received_option hEq, option_eq_singleton hSpace, List.singleton_append, List.cons.injEq] at h
  have hNone : '=' ∉ "--".toList ++ a.takeWhile (· ≠ '=') := by
    rw [List.mem_append, not_or]
    exact ⟨by decide, not_mem_takeWhile_ne⟩
  rw [h.1] at hNone
  exact hNone hEq

theorem received_pos {a : Str} (hne : a ≠ []) (hSpace : ' ' ∉ a) : 0 < (received a).length := by
  by_cases hEq : '=' ∈ a
  · rw [received_option hEq, option_eq_singleton hSpace, List.length_append, List.length_singleton]
    omega
  · rw [received_plain hEq, Text.words_eq_singleton hSpace hne]
    exact Nat.one_pos

theorem received_all_iff {args : List Str} (hNotEmpty : ∀ a ∈ args, a ≠ []) :
    args.flatMap received = args ↔ ∀ a ∈ args, ' ' ∉ a ∧ '=' ∉ a := by
  constructor
  · intro hSame
    have hSpace : ∀ a ∈ args, ' ' ∉ a := by
      intro a ha
      rw [← hSame] at ha
      obtain ⟨b, _, hb⟩ := List.mem_flatMap.mp ha
      exact Text.not_mem_of_mem_words hb
    have hEach := eq_singleton_of_flatMap (fun a ha => received_pos (hNotEmpty a ha) (hSpace a ha)) hSame
    exact fun a ha => ⟨hSpace a ha, received_eq_singleton (hSpace a ha) (hEach a ha)⟩
  · intro hPlain
    have hEach : ∀ a ∈ args, received a = [a] := by
      intro a ha
      rw [received_plain (hPlain a ha).2, Text.words_eq_singleton (hPlain a ha).1 (hNotEmpty a ha)]
    rw [List.flatMap_congr hEach]
    exact List.flatMap_singleton' args

/-- The daemon receives the arguments that the client was given exactly if none of them has a
space or an equals sign. -/
theorem parse_run_iff (program : Str) (handler : CmdActor.Handler) {args : List Str}
    (hNotEmpty : ∀ a ∈ args, a ≠ []) (hOwn : ∀ a ∈ args, a ∉ CliApp.ownOptions) :
    (∃ cmd, CliApp.run (program :: handler.name :: args) = .sendToDaemon cmd ∧
      CmdActor.parse cmd = .ok (handler, args)) ↔ ∀ a ∈ args, ' ' ∉ a ∧ '=' ∉ a := by
  rw [CliApp.run_eq program handler hOwn, ← received_all_iff hNotEmpty]
  constructor
  · rintro ⟨cmd, hRun, hParse⟩
    cases hRun
    rw [parse_eq] at hParse
    injection hParse with hParse
    injection hParse with _ hArgs
  · intro hSame
    refine ⟨_, rfl, ?_⟩
    rw [parse_eq, hSame]

section Runs

theorem parse_run_connect : ∃ cmd,
    CliApp.run ("v2".toList :: CmdActor.Handler.wifi.name :: ["connect".toList, "home".toList]) = .sendToDaemon cmd ∧
      CmdActor.parse cmd = .ok (.wifi, ["connect".toList, "home".toList]) :=
  (parse_run_iff "v2".toList .wifi (by decide) (by decide +kernel)).mpr (by decide)

/-- A network name with a space. -/
theorem not_parse_run_space : ¬∃ cmd,
    CliApp.run ("v2".toList :: CmdActor.Handler.wifi.name :: ["connect".toList, "my net".toList]) = .sendToDaemon cmd ∧
      CmdActor.parse cmd = .ok (.wifi, ["connect".toList, "my net".toList]) := by
  rintro ⟨cmd, hRun, hParse⟩
  rw [CliApp.run_eq _ _ (by decide +kernel)] at hRun
  cases hRun
  rw [parse_eq] at hParse
  injection hParse with hParse
  injection hParse with _ hArgs
  have hPlain := (received_all_iff (by decide)).mp hArgs "my net".toList (by decide)
  exact absurd hPlain.1 (by decide)

end Runs

end App
