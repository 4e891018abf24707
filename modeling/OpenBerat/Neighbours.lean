/-
**Other applications' cookies in the header.**

Requests that differ in their Cookie header only are alike as long as the cache key and the session
cookie's value are the same: the header itself is looked at again by oauth2-proxy alone. Alike
instances take the same steps and show the same (`step_like`).

* `sessionCookie_of_holds`: one session cookie among others, where the header can be read at all.
* `sameSession_iff`: two such headers are the same to a decision exactly when both can be read or
  neither can.
-/

import OpenBerat.Family
import OpenBerat.Provenance

namespace OpenBerat

/-! ### The header as bytes -/

/-- A header value, byte by byte. -/
def latin (value : HeaderValue) : Str :=
  value.map fun byte => Char.ofNat byte.toNat

/-- The white space a Cookie header may have around a name. -/
def blank (char : Char) : Bool :=
  char = ' ' || char = '\t'

theorem dropWhile_congr {first second : Char → Bool} {text : Str}
    (same : ∀ char ∈ text, first char = second char) :
    text.dropWhile first = text.dropWhile second := by
  induction text with
  | nil => rfl
  | cons char text ih =>
    rw [List.dropWhile_cons, List.dropWhile_cons, same char List.mem_cons_self,
      ih fun later member => same later (List.mem_cons_of_mem _ member)]

/-- One cookie of a header, with the white space of bytes around its name cut off. -/
def rawPair (cookie : Str) : Option (Str × Str) :=
  (splitOnce '=' cookie).map fun parts => ((parts.1.rdropWhile blank).dropWhile blank, parts.2)

/-- The pairs of a Cookie header as an HTTP server may deliver it. -/
def rawPairs (value : HeaderValue) : List (Str × Str) :=
  ((latin value).splitOn ';').filterMap rawPair

/-- One session cookie with this value, and no other cookie of the family. -/
def HoldsSession (session : Str) (value : HeaderValue) : Prop :=
  (rawPairs value).filter isFamily = [(cookieName, session)]

/-- Every byte can be read. -/
def Visible (value : HeaderValue) : Prop :=
  ∀ byte ∈ value, visible byte = true

instance (value : HeaderValue) : Decidable (Visible value) :=
  List.decidableBAll _ value

theorem char_of_byte {byte : UInt8} : (Char.ofNat byte.toNat).toNat = byte.toNat := by
  have bound := byte.toNat_lt
  have valid : byte.toNat.isValidChar := Or.inl (by omega)
  rw [Char.ofNat, dif_pos valid]
  rfl

/-- A readable value is its own text. -/
theorem toStr_eq (http : HeaderText) (value : HeaderValue) :
    http.toStr value = if Visible value then some (latin value) else none := by
  by_cases readable : Visible value
  · rw [if_pos readable]
    have bytes : asBytes (latin value) = value := by
      unfold asBytes Lib.utf8 latin
      rw [List.flatMap_map]
      conv_rhs => rw [← List.flatMap_singleton' value]
      refine List.flatMap_congr fun byte member => ?_
      have seen := readable byte member
      unfold visible at seen
      have small : byte.toNat < 0x80 := by
        rcases of_decide_eq_true seen with rfl | ⟨_, below⟩
        · decide
        · omega
      rw [Lib.encodeChar_ascii (by rw [char_of_byte]; exact small), char_of_byte, UInt8.ofNat_toNat]
    have text := http.toStr_asBytes (latin value)
    rw [bytes] at text
    rw [text, if_pos ((visible_asBytes _).mp (by rw [bytes]; exact readable))]
  · rw [if_neg readable]
    cases found : http.toStr value with
    | none => rfl
    | some text =>
      exact absurd ((http.isSome_iff value).mp (by rw [found]; rfl)) readable

theorem isWhitespace_of_visible {char : Char} (seen : visibleChar char = true) :
    isWhitespace char = blank char := by
  have cases : char = '\t' ∨ 32 ≤ char.toNat ∧ char.toNat < 127 := of_decide_eq_true seen
  rcases cases with rfl | ⟨low, high⟩
  · decide
  · have notTab : char ≠ '\t' := by
      rintro rfl
      exact absurd low (by decide)
    have space : char = ' ' ↔ char.toNat = 32 := by
      rw [← Char.toNat_inj]
      rfl
    unfold isWhitespace blank
    rw [Bool.eq_iff_iff]
    simp only [Bool.or_eq_true, Bool.and_eq_true, decide_eq_true_eq, beq_iff_eq, notTab, or_false,
      space]
    omega

/-- On readable text the two kinds of white space are the same. -/
theorem rawPair_eq {cookie : Str} (readable : Readable cookie) :
    rawPair cookie = cookiePair cookie := by
  unfold rawPair cookiePair
  cases found : splitOnce '=' cookie with
  | none => rfl
  | some parts =>
    obtain ⟨name, value⟩ := parts
    obtain ⟨rfl, _⟩ := splitOnce_eq_some.mp found
    have same : ∀ char ∈ name, isWhitespace char = blank char := fun char member =>
      isWhitespace_of_visible (readable char (List.mem_append_left _ member))
    have right : name.rdropWhile blank = name.rdropWhile isWhitespace := by
      unfold List.rdropWhile
      rw [dropWhile_congr fun char member => same char (List.mem_reverse.mp member)]
    have left : (name.rdropWhile isWhitespace).dropWhile blank =
        (name.rdropWhile isWhitespace).dropWhile isWhitespace :=
      (dropWhile_congr fun char member =>
        same char ((List.rdropWhile_prefix isWhitespace name).subset member)).symm
    show some ((name.rdropWhile blank).dropWhile blank, value) = some (trim name, value)
    rw [right, left]
    rfl

theorem readable_latin {value : HeaderValue} (readable : Visible value) :
    Readable (latin value) := by
  intro char member
  obtain ⟨byte, inside, rfl⟩ := List.mem_map.mp member
  have seen : byte = 9 ∨ 32 ≤ byte.toNat ∧ byte.toNat < 127 :=
    of_decide_eq_true (readable byte inside)
  unfold visibleChar
  rw [decide_eq_true_eq, char_of_byte]
  rcases seen with rfl | bounds
  · exact Or.inl rfl
  · exact Or.inr bounds

theorem rawPairs_eq {value : HeaderValue} (readable : Visible value) :
    rawPairs value = pairs (latin value) := by
  unfold rawPairs pairs
  refine List.filterMap_congr fun cookie member => rawPair_eq fun char inside => ?_
  refine readable_latin readable char ?_
  have whole : char ∈ Lib.rooted ';' ((latin value).splitOn ';') :=
    List.mem_flatMap.mpr ⟨cookie, member, List.mem_cons_of_mem _ inside⟩
  rw [Lib.rooted_splitOn] at whole
  refine (List.mem_cons.mp whole).resolve_left ?_
  rintro rfl
  exact Lib.not_mem_of_mem_splitOn member inside

/-- **One session cookie among others** is found where the header can be read, and nowhere else. -/
theorem sessionCookie_of_holds (http : HeaderText) {session : Str} {value : HeaderValue}
    (holds : HoldsSession session value) :
    sessionCookie (http.toStr value) = .ok (if Visible value then some session else none) := by
  rw [toStr_eq]
  by_cases readable : Visible value
  · rw [if_pos readable, if_pos readable, sessionCookie_eq, ← rawPairs_eq readable, holds]
    rfl
  · rw [if_neg readable, if_neg readable]
    rfl

namespace Instance

open Decide (Incoming authenticate gather headerStr)
open Lib (exec)

variable {lib : Libraries}

/-! ### Alike requests -/

/-- Two requests that differ in the text of the header only. -/
structure Alike (first second : Incoming lib) : Prop where
  request : first.request = second.request
  value : first.value = second.value

theorem Alike.symm {first second : Incoming lib} (alike : Alike first second) :
    Alike second first :=
  ⟨alike.request.symm, alike.value.symm⟩

theorem Alike.session {first second : Incoming lib} (alike : Alike first second) :
    first.session = second.session := by
  unfold Incoming.session
  rw [alike.value]

theorem Alike.originOf {first second : Incoming lib} (alike : Alike first second) (request : Nat) :
    originOf request first = originOf request second := by
  unfold Instance.originOf
  rw [alike.value, alike.request]

/-- The same stage, of two alike requests. -/
inductive Stage.Alike : Stage lib → Stage lib → Prop
  | idle : Alike .idle .idle
  | looking {first second : Incoming lib} (alike : Instance.Alike first second) (locked : Bool) :
      Alike (.looking first locked) (.looking second locked)
  | reading {first second : Incoming lib} (alike : Instance.Alike first second) (locked : Bool) :
      Alike (.reading first locked) (.reading second locked)
  | queued {first second : Incoming lib} (alike : Instance.Alike first second) :
      Alike (.queued first) (.queued second)
  | authenticating {first second : Incoming lib} (alike : Instance.Alike first second) :
      Alike (.authenticating first) (.authenticating second)
  | indexing {first second : Incoming lib} (alike : Instance.Alike first second)
      (identity : Identity) (setCookie : List HeaderValue) (session : Str) :
      Alike (.indexing first identity setCookie session)
        (.indexing second identity setCookie session)
  | loading {first second : Incoming lib} (alike : Instance.Alike first second)
      (identity : Identity) (setCookie : List HeaderValue) (session : Str) :
      Alike (.loading first identity setCookie session) (.loading second identity setCookie session)
  | filling {first second : Incoming lib} (alike : Instance.Alike first second) (cached : Cached)
      (setCookie : List HeaderValue) (session : Str) :
      Alike (.filling first cached setCookie session) (.filling second cached setCookie session)
  | answering {first second : Incoming lib} (alike : Instance.Alike first second) (cached : Cached)
      (setCookie : List HeaderValue) :
      Alike (.answering first cached setCookie) (.answering second cached setCookie)
  | done : Alike .done .done

theorem Stage.Alike.refl (stage : Stage lib) : Stage.Alike stage stage := by
  have same : ∀ incoming : Incoming lib, Instance.Alike incoming incoming := fun _ => ⟨rfl, rfl⟩
  cases stage with
  | idle => exact .idle
  | looking incoming locked => exact .looking (same _) locked
  | reading incoming locked => exact .reading (same _) locked
  | queued incoming => exact .queued (same _)
  | authenticating incoming => exact .authenticating (same _)
  | indexing incoming identity setCookie session =>
    exact .indexing (same _) identity setCookie session
  | loading incoming identity setCookie session =>
    exact .loading (same _) identity setCookie session
  | filling incoming cached setCookie session => exact .filling (same _) cached setCookie session
  | answering incoming cached setCookie => exact .answering (same _) cached setCookie
  | done => exact .done

theorem Stage.Alike.symm {first second : Stage lib} (alike : Stage.Alike first second) :
    Stage.Alike second first := by
  cases alike with
  | idle => exact .idle
  | looking alike locked => exact .looking alike.symm locked
  | reading alike locked => exact .reading alike.symm locked
  | queued alike => exact .queued alike.symm
  | authenticating alike => exact .authenticating alike.symm
  | indexing alike identity setCookie session =>
    exact .indexing alike.symm identity setCookie session
  | loading alike identity setCookie session => exact .loading alike.symm identity setCookie session
  | filling alike cached setCookie session => exact .filling alike.symm cached setCookie session
  | answering alike cached setCookie => exact .answering alike.symm cached setCookie
  | done => exact .done

theorem idle_of_alike {stage : Stage lib} (alike : Stage.Alike .idle stage) : stage = .idle := by
  cases alike
  rfl

theorem missed_alike {first second : Incoming lib} (alike : Alike first second) (locked : Bool) :
    Stage.Alike (missed first locked) (missed second locked) := by
  cases locked with
  | true => exact .authenticating alike
  | false => exact .queued alike

/-- The outcome of a move, up to the header's text. -/
structure Moved.Alike (first second : Moved lib) : Prop where
  cache : first.cache = second.cache
  fill : first.fill = second.fill
  stage : Stage.Alike first.stage second.stage
  out : first.out = second.out

/-- **Alike requests move alike.** -/
theorem advance_alike {first second : State lib} (cache : first.cache = second.cache)
    (fill : first.fill = second.fill) {before after : Stage lib} (alike : Stage.Alike before after)
    {request : Nat} {move : Move} {moved : Moved lib}
    (advanced : advance first request move before = some moved) :
    ∃ other, advance second request move after = some other ∧ Moved.Alike moved other := by
  obtain ⟨cache₁, fill₁, stages₁⟩ := first
  obtain ⟨cache₂, fill₂, stages₂⟩ := second
  obtain rfl : cache₁ = cache₂ := cache
  obtain rfl : fill₁ = fill₂ := fill
  cases move with
  | flag =>
    obtain ⟨incoming, locked, rfl, outcome⟩ := advance_flag advanced
    cases alike with
    | @looking _ other alike =>
      rcases outcome with ⟨live, rfl⟩ | ⟨off, rfl⟩
      · exact ⟨_, if_pos live, rfl, rfl, .reading alike locked,
          congrArg (fun origin => [Event.consulted origin true]) (alike.originOf request)⟩
      · refine ⟨_, if_neg (Bool.eq_false_iff.mp off), rfl, rfl, missed_alike alike locked, ?_⟩
        exact congrArg (fun origin => [Event.consulted origin false]) (alike.originOf request)
  | read =>
    obtain ⟨incoming, locked, rfl, _⟩ := advance_read advanced
    cases alike with
    | @reading _ other alike =>
      simp only [advance, ← alike.request, ← alike.originOf] at advanced ⊢
      cases found : incoming.request.key.bind (Cache.lookup cache₁.now cache₁.inner) with
      | none =>
        rw [found] at advanced
        cases advanced
        exact ⟨_, rfl, rfl, rfl, missed_alike alike locked, rfl⟩
      | some cached =>
        rw [found] at advanced
        cases advanced
        exact ⟨_, rfl, rfl, rfl, .answering alike cached [], rfl⟩
  | acquire =>
    obtain ⟨incoming, key, rfl, keyed, free, rfl⟩ := advance_acquire advanced
    cases alike with
    | @queued _ other alike =>
      refine ⟨⟨cache₁, Function.update fill₁ (shardOf lib key) (some request), .looking other true,
        []⟩, ?_, rfl, rfl, .looking alike true, rfl⟩
      simp only [advance, ← alike.request, keyed]
      exact if_pos free
  | authenticated response =>
    obtain ⟨incoming, rfl, _⟩ := advance_authenticated advanced
    cases alike with
    | @authenticating _ other alike =>
      simp only [advance, ← alike.session, ← alike.originOf] at advanced ⊢
      cases outcome : authenticate response with
      | anonymous =>
        rw [outcome] at advanced
        cases advanced
        exact ⟨_, rfl, rfl, rfl, .done, rfl⟩
      | unavailable =>
        rw [outcome] at advanced
        cases advanced
        exact ⟨_, rfl, rfl, rfl, .done, rfl⟩
      | verified identity setCookie =>
        rw [outcome] at advanced
        dsimp only at advanced ⊢
        cases known : incoming.session with
        | none =>
          rw [known] at advanced
          cases advanced
          exact ⟨_, rfl, rfl, rfl, .done, rfl⟩
        | some session =>
          rw [known] at advanced
          cases advanced
          exact ⟨_, rfl, rfl, rfl, .indexing alike identity setCookie session, rfl⟩
  | indexed ok =>
    obtain ⟨incoming, identity, setCookie, session, rfl, outcome⟩ := advance_indexed advanced
    cases alike with
    | @indexing _ other alike =>
      rcases outcome with ⟨rfl, rfl⟩ | ⟨rfl, rfl⟩
      · refine ⟨_, rfl, rfl, rfl, .loading alike identity setCookie session, ?_⟩
        exact congrArg (fun origin => [Event.indexed origin (lib.http.text identity.sub) session])
          (alike.originOf request)
      · exact ⟨_, rfl, rfl, rfl, .done, rfl⟩
  | loaded query =>
    obtain ⟨incoming, identity, setCookie, session, rfl, _⟩ := advance_loaded advanced
    cases alike with
    | @loading _ other alike =>
      simp only [advance, ← alike.request, ← alike.originOf] at advanced ⊢
      cases found : query incoming.request.slug (lib.http.text identity.sub)
          (groupsOf lib.http identity) with
      | none =>
        rw [found] at advanced
        cases advanced
        exact ⟨_, rfl, rfl, rfl, .done, rfl⟩
      | some app =>
        rw [found] at advanced
        cases advanced
        exact ⟨_, rfl, rfl, rfl, .filling alike _ setCookie session, rfl⟩
  | insert plan =>
    obtain ⟨incoming, cached, setCookie, session, rfl, outcome⟩ := advance_insert advanced
    cases alike with
    | @filling _ other alike =>
      rcases outcome with ⟨keyed, rfl⟩ | ⟨key, next, keyed, stepped, rfl⟩
      · refine ⟨⟨cache₁, fill₁, .answering other cached setCookie, []⟩, ?_, rfl, rfl,
          .answering alike cached setCookie, rfl⟩
        simp only [advance, ← alike.request, keyed]
        rfl
      · refine ⟨⟨next, fill₁, .answering other cached setCookie,
          [.inserted (originOf request other) cache₁.now]⟩, ?_, rfl, rfl,
          .answering alike cached setCookie, ?_⟩
        · simp only [advance, ← alike.request, keyed, stepped]
          rfl
        · exact congrArg (fun origin => [Event.inserted origin cache₁.now]) (alike.originOf request)
  | answer now seen =>
    obtain ⟨incoming, cached, setCookie, next, out, rfl, stepped, rfl⟩ := advance_answer advanced
    cases alike with
    | @answering _ other alike =>
      refine ⟨⟨next, release fill₁ request, .done, out.map .audit ++
        [.answered (originOf request other) now
          (Decide.answered (cached.decision other.request.uri now) cached.identity setCookie)]⟩,
        ?_, rfl, rfl, .done, ?_⟩
      · simp only [advance, ← alike.request, stepped]
      · show out.map Event.audit ++ _ = out.map Event.audit ++ _
        rw [alike.originOf, alike.request]
  | cancel =>
    have dropped := advance_cancel advanced
    subst dropped
    have awaits : before.awaits = after.awaits := by
      cases alike with
      | _ => rfl
    have waiting : before.awaits = true := by
      by_contra busy
      simp only [advance, if_neg busy] at advanced
      cases advanced
    refine ⟨_, if_pos (awaits ▸ waiting), rfl, rfl, .done, rfl⟩

/-- Two states of an instance, up to the text of Cookie headers. -/
structure State.Alike (first second : State lib) : Prop where
  cache : first.cache = second.cache
  fill : first.fill = second.fill
  stages : ∀ request, Stage.Alike (first.stages request) (second.stages request)

theorem State.Alike.symm {first second : State lib} (alike : State.Alike first second) :
    State.Alike second first :=
  ⟨alike.cache.symm, alike.fill.symm, fun request => (alike.stages request).symm⟩

theorem stages_update {first second : Nat → Stage lib}
    (alike : ∀ request, Stage.Alike (first request) (second request)) {left right : Stage lib}
    (both : Stage.Alike left right) (request other : Nat) :
    Stage.Alike (Function.update first request left other)
      (Function.update second request right other) := by
  by_cases same : other = request
  · subst same
    rw [Function.update_self, Function.update_self]
    exact both
  · rw [Function.update_of_ne same, Function.update_of_ne same]
    exact alike other

/-- Two gathered requests, or the same refusal. -/
inductive GatherAlike : Except Deny (Incoming lib) → Except Deny (Incoming lib) → Prop
  | error (reason : Deny) : GatherAlike (.error reason) (.error reason)
  | ok {first second : Incoming lib} (alike : Alike first second) :
    GatherAlike (.ok first) (.ok second)

theorem GatherAlike.symm {first second : Except Deny (Incoming lib)}
    (alike : GatherAlike first second) : GatherAlike second first := by
  cases alike with
  | error reason => exact .error reason
  | ok alike => exact .ok alike.symm

theorem GatherAlike.refl (outcome : Except Deny (Incoming lib)) : GatherAlike outcome outcome := by
  cases outcome with
  | error reason => exact .error reason
  | ok incoming => exact .ok ⟨rfl, rfl⟩

/-- The same label, or the arrival of two alike requests. -/
inductive LabelAlike (lib : Libraries) : Label → Label → Prop
  | same (label : Label) : LabelAlike lib label label
  | arrive (request : Nat) {first second : Headers}
      (alike : GatherAlike (gather lib first) (gather lib second)) :
      LabelAlike lib (.arrive request first) (.arrive request second)

theorem LabelAlike.symm {first second : Label} (alike : LabelAlike lib first second) :
    LabelAlike lib second first := by
  cases alike with
  | same label => exact .same _
  | arrive request alike => exact .arrive request alike.symm

theorem arrive_alike {first second : State lib} (alike : State.Alike first second) {request : Nat}
    {one other : Headers} (both : GatherAlike (gather lib one) (gather lib other))
    {next : State lib} {out : List Event}
    (stepped : step first (.arrive request one) = some (next, out)) :
    ∃ last, step second (.arrive request other) = some (last, out) ∧ State.Alike next last := by
  have idle : first.stages request = .idle := (step_arrive stepped).1
  have also : second.stages request = .idle := idle_of_alike (idle ▸ alike.stages request)
  simp only [step, idle, also] at stepped ⊢
  generalize gather lib one = left at both stepped
  generalize gather lib other = right at both ⊢
  cases both with
  | error reason =>
    cases stepped
    exact ⟨_, rfl, alike.cache, alike.fill, stages_update alike.stages .done request⟩
  | @ok incoming also same =>
    cases stepped
    have stages : Stage.Alike
        (if incoming.request.key.isSome then .looking incoming false else .authenticating incoming)
        (if also.request.key.isSome then .looking also false else .authenticating also) := by
      rw [same.request]
      split
      · exact .looking same false
      · exact .authenticating same
    dsimp only
    rw [← same.originOf request]
    exact ⟨_, rfl, alike.cache, alike.fill, stages_update alike.stages stages request⟩

/-- **Alike instances take alike steps.** -/
theorem step_alike {first second : State lib} (alike : State.Alike first second)
    {label other : Label} (labels : LabelAlike lib label other) {next : State lib}
    {out : List Event} (stepped : step first label = some (next, out)) :
    ∃ last, step second other = some (last, out) ∧ State.Alike next last := by
  cases labels with
  | arrive request both => exact arrive_alike alike both stepped
  | same label =>
    cases label with
    | arrive request headers => exact arrive_alike alike (.refl _) stepped
    | move request move =>
      obtain ⟨moved, advanced, rfl, rfl⟩ := step_move stepped
      obtain ⟨other, also, same⟩ :=
        advance_alike alike.cache alike.fill (alike.stages request) advanced
      refine ⟨⟨other.cache, other.fill, Function.update second.stages request other.stage⟩, ?_,
        same.cache, same.fill, stages_update alike.stages same.stage request⟩
      simp only [step, also, same.out]
    | cache label =>
      obtain ⟨cache, seen, quiet, taken, rfl, rfl⟩ := step_cache stepped
      refine ⟨{ second with cache := cache }, ?_, rfl, alike.fill, alike.stages⟩
      rw [alike.cache] at taken
      simp only [step, if_pos quiet, taken]

/-! ### The same session -/

/-- The request's headers with this Cookie header. -/
def withCookie (headers : Headers) (cookie : HeaderValue) : Headers :=
  fun name => if name = "cookie".toList then some cookie else headers name

/-- Two Cookie headers that make no difference: the cache key, the session key, and whatever an
instance shows from then on, given the same answers from outside and anything else in between. -/
structure SameSession (lib : Libraries) (first second : HeaderValue) : Prop where
  key : ∀ slug, Key.new lib.sha256 (lib.http.toStr first) slug =
    Key.new lib.sha256 (lib.http.toStr second) slug
  session : ((sessionCookie (lib.http.toStr first)).toOption.bind id).bind
      (lib.base64.sessionKey · cookieName) =
    ((sessionCookie (lib.http.toStr second)).toOption.bind id).bind
      (lib.base64.sessionKey · cookieName)
  shows : ∀ (headers : Headers) (state : State lib) (request : Nat) (labels : List Label),
    (exec step state (.arrive request (withCookie headers first) :: labels)).map Prod.snd =
      (exec step state (.arrive request (withCookie headers second) :: labels)).map Prod.snd

theorem headerStr_withCookie (headers : Headers) (cookie : HeaderValue) {name : String}
    (other : name.toList ≠ "cookie".toList) :
    headerStr lib (withCookie headers cookie) name = headerStr lib headers name := by
  unfold headerStr withCookie
  rw [if_neg other]

theorem gather_alike {headers : Headers} {first second : HeaderValue} {value : Option Str}
    (left : sessionCookie (lib.http.toStr first) = .ok value)
    (right : sessionCookie (lib.http.toStr second) = .ok value) :
    GatherAlike (gather lib (withCookie headers first))
      (gather lib (withCookie headers second)) := by
  have cookie : ∀ value, headerStr lib (withCookie headers value) "cookie" = lib.http.toStr value :=
    fun value => rfl
  have slugs := fun value => @headerStr_withCookie lib headers value "x-app-slug" (by decide)
  have uris := fun value => @headerStr_withCookie lib headers value "x-original-uri" (by decide)
  have ips := fun value => @headerStr_withCookie lib headers value "x-real-ip" (by decide)
  have ids := fun value => @headerStr_withCookie lib headers value "x-request-id" (by decide)
  have keys : ∀ slug, Key.new lib.sha256 (lib.http.toStr first) slug =
      Key.new lib.sha256 (lib.http.toStr second) slug := by
    intro slug
    unfold Key.new
    rw [left, right]
  have context : ∀ value, (["x-original-method", "x-real-ip", "x-request-id"].any fun name =>
      (withCookie headers value name.toList).isNone) =
      ["x-original-method", "x-real-ip", "x-request-id"].any fun name =>
        (headers name.toList).isNone := fun value => rfl
  unfold gather
  rw [slugs, slugs, uris, uris]
  cases headerStr lib headers "x-app-slug" with
  | none => exact .error _
  | some slug =>
    cases headerStr lib headers "x-original-uri" with
    | none => exact .error _
    | some uri =>
      dsimp only
      rw [context, context]
      by_cases missing : (["x-original-method", "x-real-ip", "x-request-id"].any fun name =>
          (headers name.toList).isNone) = true
      · rw [if_pos missing, if_pos missing]
        exact .error _
      · rw [if_neg missing, if_neg missing]
        simp only [cookie, left, right]
        refine .ok ⟨?_, ?_⟩
        · simp only [keys, ips, ids]
        · unfold Incoming.value
          simp only [left, right]

theorem Key.new_of_holds {session : Str} {value : HeaderValue} (holds : HoldsSession session value)
    (slug : Str) : Key.new lib.sha256 (lib.http.toStr value) slug =
      if Visible value then some ⟨lib.sha256 (asBytes session), slug⟩ else none := by
  unfold Key.new
  rw [sessionCookie_of_holds lib.http holds]
  by_cases readable : Visible value
  · rw [if_pos readable, if_pos readable]
  · rw [if_neg readable, if_neg readable]

/-- What the scan finds is all that counts. -/
theorem sameSession_of_scan {first second : HeaderValue} {value : Option Str}
    (left : sessionCookie (lib.http.toStr first) = .ok value)
    (right : sessionCookie (lib.http.toStr second) = .ok value) : SameSession lib first second := by
  refine ⟨fun slug => ?_, ?_, fun headers state request labels => ?_⟩
  · unfold Key.new
    rw [left, right]
  · rw [left, right]
  · have pairwise : List.Forall₂ (LabelAlike lib)
        (.arrive request (withCookie headers first) :: labels)
        (.arrive request (withCookie headers second) :: labels) :=
      .cons (.arrive request (gather_alike left right)) (List.forall₂_same.mpr fun _ _ => .same _)
    exact Lib.exec_trace_eq (fun _ _ alike => alike.symm) (fun _ _ alike => alike.symm)
      (fun _ _ _ _ _ _ alike labels stepped => step_alike alike labels stepped) pairwise
      ⟨rfl, rfl, fun _ => .refl _⟩

/-- **Other cookies make no difference exactly where the header can be read**, or in neither. -/
theorem sameSession_iff (lib : Libraries) {session : Str} {first second : HeaderValue}
    (left : HoldsSession session first) (right : HoldsSession session second) :
    SameSession lib first second ↔ (Visible first ↔ Visible second) := by
  constructor
  · intro same
    have keys := same.key []
    rw [Key.new_of_holds left, Key.new_of_holds right] at keys
    by_cases one : Visible first
    · refine iff_of_true one ?_
      by_contra other
      rw [if_pos one, if_neg other] at keys
      cases keys
    · refine iff_of_false one fun other => ?_
      rw [if_neg one, if_pos other] at keys
      cases keys
  · intro both
    refine sameSession_of_scan (sessionCookie_of_holds lib.http left) ?_
    rw [sessionCookie_of_holds lib.http right]
    simp only [both]

/-! ### One neighbour -/

namespace Neighbour

/-- The session cookie alone. -/
def single : HeaderValue := asBytes ("_oauth2_proxy=".toList ++ Visit.value)

/-- Behind a cookie with this value. -/
def behind (value : Bytes) : HeaderValue :=
  asBytes "theme=".toList ++ value ++ asBytes "; ".toList ++ single

instance (session : Str) (value : HeaderValue) : Decidable (HoldsSession session value) :=
  inferInstanceAs (Decidable ((rawPairs value).filter isFamily = [(cookieName, session)]))

end Neighbour

open Neighbour in
/-- A readable neighbour makes no difference. -/
theorem sameSession_theme : SameSession Visit.lib single (behind (asBytes "dark".toList)) :=
  (@sameSession_iff Visit.lib Visit.value _ _ (by decide +kernel) (by decide +kernel)).mpr
    (iff_of_true (by decide +kernel) (by decide +kernel))

open Neighbour in
/-- **One byte above ASCII in another application's cookie**, and the session has neither a cache
key nor a session key. -/
theorem neighbour_hides_session :
    HoldsSession Visit.value single ∧ HoldsSession Visit.value (behind [0xfc]) ∧
    (∀ byte ∈ behind [0xfc], byte = 9 ∨ 32 ≤ byte.toNat ∧ byte ≠ 127) ∧
    (Key.new Visit.lib.sha256 (Visit.lib.http.toStr single) "wiki".toList).isSome = true ∧
    Key.new Visit.lib.sha256 (Visit.lib.http.toStr (behind [0xfc])) "wiki".toList = none ∧
    ((sessionCookie (Visit.lib.http.toStr single)).toOption.bind id).bind
      (Visit.lib.base64.sessionKey · cookieName) = some Visit.session ∧
    ((sessionCookie (Visit.lib.http.toStr (behind [0xfc]))).toOption.bind id).bind
      (Visit.lib.base64.sessionKey · cookieName) = none := by
  decide +kernel

end Instance

end OpenBerat
