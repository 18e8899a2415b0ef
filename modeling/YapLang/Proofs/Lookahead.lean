import YapLang.Proofs.GrammarSoundness
import YapLang.Proofs.TokenValues

/-!
# One token of lookahead

What a step of reading does depends on the tokens that it takes and on the one after them. So a step
*foretells* another one: on every list that begins with the same tokens, the one after those that
the first step has taken included, the second step takes the same tokens or rejects the list too.
The two may differ in what string tokens stand for, and in the number of rounds of their loops as
long as there are enough of them for the tokens. The same list is rejected for the same reason.
-/
namespace YapLang

/-- The tokens from the one on at which reading has stopped. Not every rejection is about a
token. -/
def Rejection.cursor? : Rejection → Option (List Token)
  | unexpected _ rest | strayJump _ rest | badTarget _ _ rest => some rest
  | badNumber _ | unhashable _ | nestedTooDeeply => none

namespace Reading

variable {α β γ δ : Type} {q : Prop} {n n' : Nat} {s rest s' rest' : List Token} {t : Token}

/-! ### Lists that begin alike -/

/-- Up to its rest, and one token further, the first list is also the beginning of the second one,
which is not longer than the bound. -/
def Shares (bound : Nat) (s rest s' rest' : List Token) : Prop :=
  ∃ ts, s = ts ++ rest ∧ s' = ts ++ rest' ∧ rest'.head? = rest.head? ∧ s'.length ≤ bound

namespace Shares

theorem head (shares : Shares n s rest s' rest') : s'.head? = s.head? := by
  obtain ⟨ts, rfl, rfl, next, -⟩ := shares
  cases ts with
  | nil => exact next
  | cons => rfl

theorem mono (shares : Shares n s rest s' rest') (le : n ≤ n') : Shares n' s rest s' rest' := by
  obtain ⟨ts, first, second, next, short⟩ := shares
  exact ⟨ts, first, second, next, Nat.le_trans short le⟩

theorem length_le (shares : Shares n s rest s' rest') : s'.length ≤ n := by
  obtain ⟨-, -, -, -, short⟩ := shares
  exact short

/-- Nothing is taken from either list. -/
theorem eq_of_self (shares : Shares n s s s' rest') : s' = rest' := by
  obtain ⟨ts, first, rfl, -, -⟩ := shares
  obtain rfl : ts = [] := List.self_eq_append_left.1 first
  rfl

/-- What is taken from both lists can be taken in two steps. -/
theorem split {us mid : List Token} (shares : Shares n (us ++ mid) rest s' rest')
    (inside : rest <:+ mid) :
    ∃ mid', Shares n (us ++ mid) mid s' mid' ∧ Shares (n - us.length) mid rest mid' rest' := by
  obtain ⟨ts, first, rfl, next, short⟩ := shares
  obtain ⟨vs, rfl⟩ := inside
  rw [← List.append_assoc] at first
  -- what both lists share is what the two steps take together
  obtain rfl : us ++ vs = ts := List.append_cancel_right first
  rw [List.append_assoc] at short ⊢
  have further : (vs ++ rest').head? = (vs ++ rest).head? := by
    cases vs with
    | nil => exact next
    | cons => rfl
  refine ⟨vs ++ rest', ⟨us, rfl, rfl, further, short⟩, vs, rfl, rfl, next, ?_⟩
  rw [List.length_append] at short
  omega

end Shares

/-! ### Steps that foretell others -/

/-- The tokens that are left after a step, or from which on it rejects them. -/
def stop? : Except Rejection (α × List Token) → Option (List Token)
  | .ok (_, rest) => some rest
  | .error rejection => rejection.cursor?

/-- The second outcome is of the same kind as the first one, with the given tokens left. -/
def Answers (R : α → β → Prop) (rest' : List Token) :
    Except Rejection (α × List Token) → Except Rejection (β × List Token) → Prop
  | .ok (a, _), other => ∃ b, other = .ok (b, rest') ∧ R a b
  | .error _, other => ∃ rejection, other = .error rejection

/-- The outcome of a step on a list foretells what another step does on lists that begin alike. The
list itself is rejected for the same reason, if both steps keep the same tokens for their
messages. -/
structure ForetellsAt (sameStart : Prop) (bound : Nat) (R : α → β → Prop) (s : List Token)
    (y : Reading β) (outcome : Except Rejection (α × List Token)) : Prop where
  alike : ∀ rest, stop? outcome = some rest → rest <:+ s ∧
    ∀ s' rest', Shares bound s rest s' rest' → Answers R rest' outcome (y s')
  repeats : sameStart → s.length ≤ bound → ∀ rejection, outcome = .error rejection →
    y s = .error rejection

/-- On lexical tokens, as many as the first bound allows, the first step foretells the second one on
lists that the second bound allows. Their results are related. -/
def Foretells (sameStart : Prop) (n n' : Nat) (R : α → β → Prop) (x : Reading α) (y : Reading β) :
    Prop :=
  ∀ ⦃s⦄, (∀ t ∈ s, t.Lexical) → s.length ≤ n → ForetellsAt sameStart n' R s y (x s)

namespace ForetellsAt

variable {R : α → β → Prop} {y z : Reading β} {outcome : Except Rejection (α × List Token)}

theorem mono (foretells : ForetellsAt q n' R s y outcome) (le : n ≤ n') :
    ForetellsAt q n R s y outcome := by
  constructor
  · intro rest stops
    obtain ⟨inside, same⟩ := foretells.alike rest stops
    exact ⟨inside, fun s' rest' shares => same s' rest' (shares.mono le)⟩
  · intro sameStart short
    exact foretells.repeats sameStart (Nat.le_trans short le)

/-- Only lists with the same first token count, and only those that are not too long. -/
theorem congr (foretells : ForetellsAt q n' R s y outcome)
    (same : ∀ s', s'.head? = s.head? → s'.length ≤ n' → z s' = y s') :
    ForetellsAt q n' R s z outcome := by
  constructor
  · intro rest stops
    obtain ⟨inside, further⟩ := foretells.alike rest stops
    refine ⟨inside, fun s' rest' shares => ?_⟩
    rw [same s' shares.head shares.length_le]
    exact further s' rest' shares
  · intro sameStart short
    rw [same s rfl short]
    exact foretells.repeats sameStart short

/-- Nothing is taken. -/
theorem stay {a : α} {b : β} (related : R a b)
    (same : ∀ s', s'.head? = s.head? → y s' = .ok (b, s')) :
    ForetellsAt q n' R s y (.ok (a, s)) := by
  constructor
  · rintro _ ⟨⟩
    refine ⟨List.suffix_refl s, fun s' rest' shares => ⟨b, ?_, related⟩⟩
    rw [same s' shares.head, shares.eq_of_self]
  · intro _ _ _ rejected
    cases rejected

/-- The list is rejected at its first token. -/
theorem fail {rejection : Rejection} (cursor : rejection.cursor? = some s)
    (same : ∀ s', s'.head? = s.head? →
      ∃ other, y s' = .error other ∧ (q → s' = s → other = rejection)) :
    ForetellsAt q n' R s y (.error rejection) := by
  constructor
  · intro rest stops
    obtain rfl : s = rest := Option.some.inj (cursor.symm.trans stops)
    refine ⟨List.suffix_refl s, fun s' rest' shares => ?_⟩
    obtain ⟨other, rejected, -⟩ := same s' shares.head
    exact ⟨other, rejected⟩
  · rintro sameStart short _ ⟨⟩
    obtain ⟨other, rejected, equal⟩ := same s rfl
    rw [rejected, equal sameStart rfl]

/-- Something else was expected than the first token. -/
theorem refuse {expected : String}
    (same : ∀ s', s'.head? = s.head? → y s' = .error (.unexpected expected s')) :
    ForetellsAt q n' R s y (.error (.unexpected expected s)) := by
  refine .fail rfl fun s' begins => ⟨_, same s' begins, ?_⟩
  rintro _ rfl
  rfl

/-- A rejection that is about no token foretells nothing about other lists. -/
theorem unforeseen {rejection : Rejection} (none : rejection.cursor? = none)
    (same : y s = .error rejection) : ForetellsAt q n' R s y (.error rejection) := by
  constructor
  · intro rest stops
    cases none.symm.trans stops
  · rintro _ _ _ ⟨⟩
    exact same

/-- The first token is taken before anything else. -/
theorem skip {last : List Token} (inner : ForetellsAt q (n' - 1) R last y outcome)
    (same : ∀ r, z (t :: r) = y r) : ForetellsAt q n' R (t :: last) z outcome := by
  constructor
  · intro rest stops
    obtain ⟨inside, further⟩ := inner.alike rest stops
    refine ⟨inside.trans (List.suffix_cons t last), fun s' rest' shares => ?_⟩
    have shares : Shares n' ([t] ++ last) rest s' rest' := shares
    obtain ⟨r, ⟨ts, taken, rfl, -, -⟩, tails⟩ := shares.split inside
    -- the other list shares the token, as it shares what comes later
    obtain rfl : [t] = ts := List.append_cancel_right taken
    rw [List.singleton_append, same r]
    exact further r rest' tails
  · intro sameStart short
    rw [same last]
    exact inner.repeats sameStart (Nat.le_sub_of_add_le short)

/-- The first token is taken, and nothing else. -/
theorem take {a : α} {b : β} (related : R a b) (same : ∀ r, z (t :: r) = .ok (b, r)) :
    ForetellsAt q n' R (t :: rest) z (.ok (a, rest)) := by
  -- after the token there is nothing to do
  have nothing : ForetellsAt q (n' - 1) R rest (Pure.pure b) (.ok (a, rest)) :=
    .stay related fun _ _ => rfl
  exact nothing.skip same

/-- Only lists with this first token count. -/
theorem of_head {y z : Reading β} (foretells : ForetellsAt q n' R (t :: rest) y outcome)
    (same : ∀ r, z (t :: r) = y (t :: r)) : ForetellsAt q n' R (t :: rest) z outcome := by
  refine foretells.congr fun s' begins _ => ?_
  obtain ⟨r, rfl⟩ := List.head?_eq_some_iff.1 begins
  exact same r

/-- Only the empty list counts. -/
theorem of_nil {y z : Reading β} (foretells : ForetellsAt q n' R [] y outcome)
    (same : z [] = y []) : ForetellsAt q n' R [] z outcome := by
  refine foretells.congr fun s' begins _ => ?_
  obtain rfl := List.head?_eq_none_iff.1 begins
  exact same

end ForetellsAt

/-- Every result on the left is related to one on the right. -/
class Total (R : α → β → Prop) : Prop where
  exists_right : ∀ a, ∃ b, R a b

instance : Total (@Eq α) :=
  ⟨fun a => ⟨a, rfl⟩⟩

/-- The relation between results that are not looked at. -/
def Unseen (_ : α) (_ : β) : Prop :=
  True

instance [Nonempty β] : Total (@Unseen α β) :=
  ⟨fun _ => ⟨Classical.arbitrary β, trivial⟩⟩

namespace Foretells

variable {R : α → β → Prop} {S : γ → δ → Prop} {x : Reading α} {y : Reading β}
  {f : α → Reading γ} {g : β → Reading δ}

theorem mono {m m' : Nat} (foretells : Foretells q n n' R x y) (le : m ≤ n) (le' : m' ≤ n') :
    Foretells q m m' R x y :=
  fun _ lexical short => (foretells lexical (Nat.le_trans short le)).mono le'

/-- The reason for a rejection counts under a stronger condition too. -/
theorem weaken {r : Prop} (foretells : Foretells q n n' R x y) (stronger : r → q) :
    Foretells r n n' R x y := by
  intro s lexical short
  obtain ⟨alike, repeats⟩ := foretells lexical short
  exact ⟨alike, fun sameStart => repeats (stronger sameStart)⟩

/-- The results need not be looked at. -/
theorem unseen (foretells : Foretells q n n' R x y) : Foretells q n n' Unseen x y := by
  intro s lexical short
  refine ⟨fun rest stops => ?_, (foretells lexical short).repeats⟩
  obtain ⟨inside, same⟩ := (foretells lexical short).alike rest stops
  refine ⟨inside, fun s' rest' shares => ?_⟩
  -- the related result is there all the same
  have answers := same s' rest' shares
  revert answers
  cases x s with
  | ok taken =>
    rintro ⟨b, taken', -⟩
    exact ⟨b, taken', trivial⟩
  | error rejection => exact id

/-- If a bound allows the empty list only, other lists do not count. -/
theorem of_empty {z : Reading β} (foretells : Foretells q n n' R x y) (same : z [] = y []) :
    Foretells q n 0 R x z := by
  intro s lexical short
  refine ((foretells lexical short).mono (Nat.zero_le n')).congr fun s' _ none => ?_
  obtain rfl : s' = [] := List.length_eq_zero_iff.1 (Nat.le_zero.1 none)
  exact same

theorem empty (here : ForetellsAt q n' R [] y (x [])) : Foretells q 0 n' R x y := by
  intro s _ none
  obtain rfl : s = [] := List.length_eq_zero_iff.1 (Nat.le_zero.1 none)
  exact here

theorem pure {a : α} {b : β} (related : R a b) :
    Foretells q n n' R (Pure.pure a) (Pure.pure b) :=
  fun _ _ _ => .stay related fun _ _ => rfl

theorem reject (expected : String) :
    Foretells q n n' R (Reading.reject expected) (Reading.reject expected) :=
  fun _ _ _ => .refuse fun _ _ => rfl

theorem throw {rejection : Rejection} (none : rejection.cursor? = none) :
    Foretells q n n' R (MonadExcept.throw rejection) (MonadExcept.throw rejection) :=
  fun _ _ _ => .unforeseen none rfl

/-- What the second steps do is foretold from where the first ones have stopped. -/
theorem bindAt [Total R] (first : ForetellsAt q n' R s y (x s))
    (next : ∀ a us rest, x s = .ok (a, rest) → s = us ++ rest → ∀ b, R a b →
      ForetellsAt q (n' - us.length) S rest (g b) (f a rest)) :
    ForetellsAt q n' S s (y >>= g) ((x >>= f) s) := by
  cases outcome : x s with
  | error rejection =>
    rw [bind_eq_error.2 (.inl outcome)]
    rw [outcome] at first
    constructor
    · intro rest stops
      obtain ⟨inside, same⟩ := first.alike rest stops
      refine ⟨inside, fun s' rest' shares => ?_⟩
      obtain ⟨other, rejected⟩ := same s' rest' shares
      exact ⟨other, bind_eq_error.2 (.inl rejected)⟩
    · rintro sameStart short _ ⟨⟩
      exact bind_eq_error.2 (.inl (first.repeats sameStart short rejection rfl))
  | ok taken =>
    obtain ⟨a, mid⟩ := taken
    rw [bind_of_ok outcome]
    rw [outcome] at first
    obtain ⟨⟨us, rfl⟩, same⟩ := first.alike mid rfl
    have second := next a us mid outcome rfl
    constructor
    · intro rest stops
      -- where the second step stops does not depend on the other list
      obtain ⟨b, related⟩ := Total.exists_right (R := R) a
      have inside := ((second b related).alike rest stops).1
      refine ⟨inside.trans (List.suffix_append us mid), fun s' rest' shares => ?_⟩
      obtain ⟨mid', front, back⟩ := shares.split inside
      obtain ⟨b, taken', related⟩ := same s' mid' front
      rw [bind_of_ok taken']
      exact ((second b related).alike rest stops).2 mid' rest' back
    · intro sameStart short
      obtain ⟨b, taken', related⟩ := same (us ++ mid) mid ⟨us, rfl, rfl, rfl, short⟩
      rw [bind_of_ok taken']
      rw [List.length_append] at short
      exact (second b related).repeats sameStart (by omega)

theorem bind [Total R] (first : Foretells q n n' R x y)
    (next : ∀ a b, R a b → Foretells q n n' S (f a) (g b)) :
    Foretells q n n' S (x >>= f) (y >>= g) := by
  intro s lexical short
  refine bindAt (first lexical short) ?_
  rintro a us rest - rfl b related
  have shorter : rest.length ≤ n := by
    rw [List.length_append] at short
    omega
  exact (next a b related (fun t member => lexical t (by simp [member])) shorter).mono
    (Nat.sub_le n' us.length)

/-- If the first step takes a token, the second steps have one token less on both sides. -/
theorem bind_taking [Total R] {P : List Token → α → Prop} (takes : Yields x P)
    (nonempty : ∀ ts a, P ts a → 0 < ts.length) (first : Foretells q (n + 1) n' R x y)
    (next : ∀ a b, R a b → Foretells q n (n' - 1) S (f a) (g b)) :
    Foretells q (n + 1) n' S (x >>= f) (y >>= g) := by
  intro s lexical short
  refine bindAt (first lexical short) ?_
  rintro a us rest taken rfl b related
  obtain ⟨ts, split, derived⟩ := takes lexical taken
  -- what the step has taken is what it yields, which is not empty
  obtain rfl : us = ts := List.append_cancel_right split
  have positive := nonempty us a derived
  have shorter : rest.length ≤ n := by
    rw [List.length_append] at short
    omega
  exact (next a b related (fun t member => lexical t (by simp [member])) shorter).mono (by omega)

/-! ### Single tokens -/

/-- Both steps look at the next token before they take any. -/
theorem peek {f : List Token → Reading α} {g : List Token → Reading β}
    (nil : ForetellsAt q n' R [] (g []) (f [] []))
    (cons : ∀ t rest, (∀ u ∈ t :: rest, u.Lexical) → rest.length < n →
      ForetellsAt q n' R (t :: rest) (fun s' => g (t :: s'.tail) s') (f (t :: rest) (t :: rest))) :
    Foretells q n n' R (get >>= f) (get >>= g) := by
  intro s lexical short
  cases s with
  | nil => exact nil.of_nil rfl
  | cons t rest => exact (cons t rest lexical short).of_head fun r => rfl

/-- The first token is taken without further question. -/
theorem past {rest : List Token} (inner : Foretells q n (n' - 1) R x y)
    (lexical : ∀ u ∈ t :: rest, u.Lexical) (short : rest.length ≤ n) :
    ForetellsAt q n' R (t :: rest) (fun s' => (set s'.tail >>= fun _ => y) s')
      ((set rest >>= fun _ => x) (t :: rest)) := by
  have further := inner (fun u member => lexical u (by simp [member])) short
  exact further.skip fun r => rfl

/-- The tokens that are left are kept for a message only. -/
theorem start {f : List Token → Reading α} {g : List Token → Reading β}
    (next : ∀ s s', Foretells (q ∧ s' = s) n n' R (f s) (g s')) :
    Foretells q n n' R (get >>= f) (get >>= g) := by
  intro s lexical short
  constructor
  · intro rest stops
    -- where reading stops can be told with the same list on both sides
    have itself := (next s s lexical short).alike rest stops
    refine ⟨itself.1, fun s' rest' shares => ?_⟩
    exact ((next s s' lexical short).alike rest stops).2 s' rest' shares
  · intro sameStart
    exact (next s s lexical short).repeats ⟨sameStart, rfl⟩

theorem sees (text : String) : Foretells q n n' Eq (Reading.sees text) (Reading.sees text) := by
  intro s _ _
  refine .stay rfl fun s' same => ?_
  rw [Reading.sees, same]

theorem accept (text : String) :
    Foretells q n n' Eq (Reading.accept text) (Reading.accept text) := by
  intro s _ _
  cases s with
  | nil =>
    refine .stay rfl fun s' same => ?_
    obtain rfl := List.head?_eq_none_iff.1 same
    rfl
  | cons t rest =>
    by_cases fits : t.isMark text
    · simp only [Reading.accept, fits, if_true]
      exact .take rfl fun r => by simp [Reading.accept, fits]
    · simp only [Reading.accept, fits]
      refine .stay rfl fun s' same => ?_
      obtain ⟨r, rfl⟩ := List.head?_eq_some_iff.1 same
      simp [Reading.accept, fits]

theorem expect (text : String) :
    Foretells q n n' Eq (Reading.expect text) (Reading.expect text) := by
  refine (accept text).bind ?_
  rintro found _ rfl
  cases found with
  | false => exact .reject _
  | true => exact .pure rfl

theorem identifier : Foretells q n n' Eq Reading.identifier Reading.identifier := by
  intro s _ _
  cases s with
  | nil =>
    refine .refuse fun s' same => ?_
    obtain rfl := List.head?_eq_none_iff.1 same
    rfl
  | cons t rest =>
    by_cases fits : t.kind = .identifier
    · simp only [Reading.identifier, fits, if_true]
      exact .take rfl fun r => by simp [Reading.identifier, fits]
    · simp only [Reading.identifier, fits]
      refine .refuse fun s' same => ?_
      obtain ⟨r, rfl⟩ := List.head?_eq_some_iff.1 same
      simp only [Reading.identifier, fits]
      rfl

theorem operator? (texts : List String) :
    Foretells q n n' Eq (Reading.operator? texts) (Reading.operator? texts) := by
  intro s _ _
  cases s with
  | nil =>
    refine .stay rfl fun s' same => ?_
    obtain rfl := List.head?_eq_none_iff.1 same
    rfl
  | cons t rest =>
    by_cases fits : t.isOperator texts
    · simp only [Reading.operator?, fits, if_true]
      exact .take rfl fun r => by simp [Reading.operator?, fits]
    · simp only [Reading.operator?, fits]
      refine .stay rfl fun s' same => ?_
      obtain ⟨r, rfl⟩ := List.head?_eq_some_iff.1 same
      simp [Reading.operator?, fits]

/-- If the given mark comes next, it is taken, and fewer tokens are left for what follows it. -/
theorem branch (text : String) {yes no : Reading α} {yes' no' : Reading β}
    (taken : Foretells q n (n' - 1) R yes yes') (other : Foretells q (n + 1) n' R no no') :
    Foretells q (n + 1) n' R (Reading.accept text >>= fun found => if found then yes else no)
      (Reading.accept text >>= fun found => if found then yes' else no') := by
  intro s lexical short
  cases s with
  | nil => exact (other lexical short).of_nil rfl
  | cons t rest =>
    by_cases fits : t.isMark text
    · have accepted (r : List Token) : Reading.accept text (t :: r) = .ok (true, r) := by
        simp [Reading.accept, fits]
      have shorter : rest.length ≤ n := Nat.le_of_succ_le_succ short
      rw [bind_of_ok (accepted rest)]
      refine .skip (taken (fun u member => lexical u (by simp [member])) shorter) fun r => ?_
      rw [bind_of_ok (accepted r)]
      rfl
    · have refused (r : List Token) : Reading.accept text (t :: r) = .ok (false, t :: r) := by
        simp [Reading.accept, fits]
      rw [bind_of_ok (refused rest)]
      refine (other lexical short).of_head fun r => ?_
      rw [bind_of_ok (refused r)]
      rfl

end Foretells

/-! ### Lists -/

section

variable {budget budget' : Nat}

theorem moreItems_foretells [Nonempty β] {item : Reading α} {item' : Reading β}
    (items : Foretells q budget budget' Unseen item item') {fuel fuel' : Nat}
    (enough : fuel ≤ budget) (enough' : fuel' ≤ budget') :
    Foretells q fuel fuel' Unseen (moreItems item fuel) (moreItems item' fuel') := by
  induction fuel generalizing fuel' with
  | zero =>
    refine .empty (.stay (b := []) trivial fun s' same => ?_)
    obtain rfl := List.head?_eq_none_iff.1 same
    cases fuel' with
    | zero | succ => rfl
  | succ fuel ih =>
    have round {fuel' : Nat} (enough' : fuel' ≤ budget') :
        Foretells q (fuel + 1) (fuel' + 1) Unseen (moreItems item (fuel + 1))
          (moreItems item' (fuel' + 1)) := by
      -- a comma, or the end of the list
      refine .branch _ ?_ (.pure trivial)
      have shorter := items.mono (Nat.le_of_succ_le enough) enough'
      exact shorter.bind fun a b _ => (ih (Nat.le_of_succ_le enough) enough').bind fun as bs _ =>
        .pure trivial
    cases fuel' with
    | zero => exact (round (Nat.zero_le _)).of_empty rfl
    | succ fuel' => exact round (Nat.le_of_succ_le enough')

theorem itemsUntil_foretells [Nonempty β] {item : Reading α} {item' : Reading β}
    (items : Foretells q budget budget' Unseen item item') (closing : String) :
    Foretells q budget budget' Unseen (itemsUntil budget item closing)
      (itemsUntil budget' item' closing) := by
  refine (Foretells.accept closing).bind ?_
  rintro found _ rfl
  cases found with
  | true => exact .pure trivial
  | false =>
    have further := moreItems_foretells items (Nat.le_refl budget) (Nat.le_refl budget')
    exact items.bind fun a b _ => further.bind fun as bs _ =>
      (Foretells.expect closing).bind fun _ _ _ => .pure trivial

end

/-! ### Operators -/

/-- The name that a tree consists of. -/
def name? {τ : Type} : Tree τ → Option Text
  | .identifier name => some name
  | _ => none

def isCall {τ : Type} : Tree τ → Bool
  | .call .. => true
  | _ => false

section

variable {σ τ : Type}

/-- The trees are alike in what reading looks at: whether they are names, and whether they are
calls. -/
def SameHead (a : Tree σ) (b : Tree τ) : Prop :=
  name? a = name? b ∧ isCall a = isCall b

theorem eq_identifier {tree : Tree τ} {name : Text} (named : name? tree = some name) :
    tree = .identifier name := by
  cases tree <;> cases named
  rfl

theorem eq_call {tree : Tree τ} (called : isCall tree = true) :
    ∃ callee args, tree = .call callee args := by
  cases tree <;> cases called
  exact ⟨_, _, rfl⟩

/-- What is done to names only is an error for other trees. -/
theorem rejects_unless_name {tree : Tree τ} (other : name? tree = none) {yes : Text → Reading γ}
    {no : Reading γ} {rejection : Rejection} (fails : no s = .error rejection) :
    (match tree with
      | .identifier name => yes name
      | _ => no) s = .error rejection := by
  cases tree
  case identifier => cases other
  all_goals exact fails

/-- What is done to calls only is an error for other trees. -/
theorem rejects_unless_call {tree : Tree τ} (other : isCall tree = false)
    {yes : Tree τ → List (Tree τ) → Reading γ} {no : Reading γ} {rejection : Rejection}
    (fails : no s = .error rejection) :
    (match tree with
      | .call callee args => yes callee args
      | _ => no) s = .error rejection := by
  cases tree
  case call => cases other
  all_goals exact fails

instance : Nonempty (Tree τ) :=
  ⟨.breakJump⟩

instance : Total (@SameHead σ τ) where
  exists_right a := by
    cases a
    case identifier name => exact ⟨.identifier name, rfl, rfl⟩
    case call => exact ⟨.call .breakJump [], rfl, rfl⟩
    all_goals exact ⟨.breakJump, rfl, rfl⟩

/-- Both levels have the same operators, and what these join is neither a name nor a call. -/
def SameOperators (level : Level σ) (level' : Level τ) : Prop :=
  ∀ t, (level t = none ∧ level' t = none) ∨
    ∃ join join', level t = some join ∧ level' t = some join' ∧
      ∀ left right left' right', SameHead (join left right) (join' left' right')

theorem sameOperators_logicalLevel (op : String) :
    SameOperators (logicalLevel op : Level σ) (logicalLevel op : Level τ) := by
  intro t
  unfold logicalLevel
  split
  · exact .inr ⟨_, _, rfl, rfl, fun _ _ _ _ => ⟨rfl, rfl⟩⟩
  · exact .inl ⟨rfl, rfl⟩

theorem sameOperators_binaryLevel (ops : List String) :
    SameOperators (binaryLevel ops : Level σ) (binaryLevel ops : Level τ) := by
  intro t
  unfold binaryLevel
  split
  · exact .inr ⟨_, _, rfl, rfl, fun _ _ _ _ => ⟨rfl, rfl⟩⟩
  · exact .inl ⟨rfl, rfl⟩

theorem sameOperators_levels :
    List.Forall₂ SameOperators (levels : List (Level σ)) (levels : List (Level τ)) := by
  have logical (op : String) :
      SameOperators (logicalLevel op : Level σ) (logicalLevel op : Level τ) :=
    sameOperators_logicalLevel op
  have binary (ops : List String) :
      SameOperators (binaryLevel ops : Level σ) (binaryLevel ops : Level τ) :=
    sameOperators_binaryLevel ops
  exact .cons (logical _) (.cons (logical _) (.cons (binary _) (.cons (binary _) (.cons (binary _)
    (.cons (binary _) .nil)))))

variable {budget budget' : Nat} {operand : Reading (Tree σ)} {operand' : Reading (Tree τ)}

theorem moreOperands_foretells {level : Level σ} {level' : Level τ}
    (same : SameOperators level level')
    (operands : Foretells q budget budget' SameHead operand operand')
    {fuel fuel' : Nat} (enough : fuel ≤ budget) (enough' : fuel' ≤ budget') {left : Tree σ}
    {left' : Tree τ} (related : SameHead left left') :
    Foretells q fuel fuel' SameHead (moreOperands level operand fuel left)
      (moreOperands level' operand' fuel' left') := by
  induction fuel generalizing fuel' left left' with
  | zero =>
    refine .empty (.stay related fun s' none => ?_)
    obtain rfl := List.head?_eq_none_iff.1 none
    cases fuel' with
    | zero | succ => rfl
  | succ fuel ih =>
    have round {fuel' : Nat} (enough' : fuel' ≤ budget') :
        Foretells q (fuel + 1) (fuel' + 1) SameHead (moreOperands level operand (fuel + 1) left)
          (moreOperands level' operand' (fuel' + 1) left') := by
      refine .peek ?_ ?_
      · exact .stay related fun s' _ => rfl
      · intro t rest lexical short
        -- the token is an operator of both levels or of neither
        rcases same t with ⟨none, none'⟩ | ⟨join, join', joins, joins', joined⟩
        · simp only [none, none']
          exact .stay related fun s' _ => rfl
        · simp only [joins, joins']
          have enough := Nat.le_of_succ_le enough
          refine Foretells.past ?_ lexical (Nat.le_of_lt_succ short)
          exact (operands.mono enough enough').bind fun right right' _ =>
            ih enough enough' (joined left right left' right')
    cases fuel' with
    | zero => exact (round (Nat.zero_le _)).of_empty rfl
    | succ fuel' => exact round (Nat.le_of_succ_le enough')

theorem operators_foretells (operands : Foretells q budget budget' SameHead operand operand') :
    Foretells q budget budget' SameHead (operators budget operand)
      (operators budget' operand') := by
  unfold operators
  -- the levels are nested from the loosest to the tightest
  generalize same : (levels : List (Level σ)) = levels
  generalize same' : (Reading.levels : List (Level τ)) = levels'
  have alike : List.Forall₂ SameOperators levels levels' := by
    rw [← same, ← same']
    exact sameOperators_levels
  clear same same'
  induction alike with
  | nil => exact operands
  | cons sameLevel _ tighter =>
    exact tighter.bind fun first first' related =>
      moreOperands_foretells sameLevel tighter (Nat.le_refl budget) (Nat.le_refl budget') related

end

/-! ### Expressions -/

/-- String tokens of source text stand for something in the one reading if they do in the other, and
otherwise they are at fault for the same reason. -/
def ReadsAlike [CharacterNames] {τ : Type} (literal : String → Except Datum.Fault τ) : Prop :=
  ∀ t : Token, t.Lexical → t.kind = .string → ∃ f : Text → τ,
    literal t.text = (Node.literal t.text).map f

section

variable {τ : Type} {budget budget' : Nat} {x : Reading Node} {y : Reading (Tree τ)}
  (inner : Foretells q budget budget' SameHead x y)
include inner

theorem primary_foretells [CharacterNames] {literal : String → Except Datum.Fault τ}
    (alike : ReadsAlike literal) :
    Foretells q budget budget' SameHead (primary Node.literal budget x)
      (primary literal budget' y) := by
  refine .peek ?_ ?_
  · exact .refuse fun s' _ => rfl
  · intro t rest lexical short
    have isLexical : t.Lexical := lexical t (by simp)
    have fewer : budget' - 1 ≤ budget' := Nat.sub_le budget' 1
    cases kind : t.kind
    case number =>
      simp only [kind]
      cases value : Text.tokenNumber? t.text with
      | none => exact .unforeseen rfl rfl
      | some x => exact .take ⟨rfl, rfl⟩ fun r => rfl
    case string =>
      simp only [kind]
      -- both literals are at fault or neither is
      obtain ⟨f, agree⟩ := alike t isLexical kind
      cases value : Node.literal t.text with
      | ok text =>
        simp only [agree, value, Except.map]
        exact .take ⟨rfl, rfl⟩ fun r => rfl
      | error fault =>
        simp only [agree, value, Except.map]
        cases fault with
        | malformed => exact .refuse fun s' _ => rfl
        | unhashable => exact .unforeseen rfl rfl
    case identifier =>
      simp only [kind]
      exact .take ⟨rfl, rfl⟩ fun r => rfl
    all_goals
      simp only [kind]
      by_cases parenthesis : t.isMark "("
      · simp only [parenthesis, if_true]
        refine Foretells.past ?_ lexical (Nat.le_of_lt short)
        exact (inner.mono (Nat.le_refl budget) fewer).bind fun e e' related =>
          (Foretells.expect ")").bind fun _ _ _ => .pure related
      · simp only [parenthesis]
        by_cases bracket : t.isMark "["
        · simp only [bracket, if_true]
          refine Foretells.past ?_ lexical (Nat.le_of_lt short)
          have elements := itemsUntil_foretells inner.unseen "]"
          exact (elements.mono (Nat.le_refl budget) fewer).bind fun _ _ _ => .pure ⟨rfl, rfl⟩
        · simp only [bracket]
          exact .refuse fun s' _ => rfl

theorem suffixes_foretells {fuel fuel' : Nat} (enough : fuel ≤ budget) (enough' : fuel' ≤ budget')
    {node : Node} {node' : Tree τ} (related : SameHead node node') :
    Foretells q fuel fuel' SameHead (suffixes budget x fuel node)
      (suffixes budget' y fuel' node') := by
  induction fuel generalizing fuel' node node' with
  | zero =>
    refine .empty (.stay related fun s' none => ?_)
    obtain rfl := List.head?_eq_none_iff.1 none
    cases fuel' with
    | zero | succ => rfl
  | succ fuel ih =>
    have round {fuel' : Nat} (enough' : fuel' ≤ budget') :
        Foretells q (fuel + 1) (fuel' + 1) SameHead (suffixes budget x (fuel + 1) node)
          (suffixes budget' y (fuel' + 1) node') := by
      have enough := Nat.le_of_succ_le enough
      have arguments := (itemsUntil_foretells inner.unseen ")").mono enough enough'
      -- whichever suffix comes next, its first token is taken
      refine .branch _ ?_ (.branch _ ?_ (.branch _ ?_ (.pure related)))
      · exact arguments.bind fun args args' _ => ih enough enough' ⟨rfl, rfl⟩
      · exact Foretells.identifier.bind fun name _ _ => ih enough enough' ⟨rfl, rfl⟩
      · exact (inner.mono enough enough').bind fun key key' _ =>
          (Foretells.expect "]").bind fun _ _ _ => ih enough enough' ⟨rfl, rfl⟩
    cases fuel' with
    | zero => exact (round (Nat.zero_le _)).of_empty rfl
    | succ fuel' => exact round (Nat.le_of_succ_le enough')

theorem updated_foretells : Foretells q budget budget' SameHead (updated x) (updated y) := by
  refine .start fun start start' => ?_
  refine (inner.weaken And.left).bind fun node node' related => .peek ?_ ?_
  · exact .stay related fun s' _ => rfl
  · intro t rest _ _
    by_cases fits : t.isOperator ["++", "--"]
    · simp only [fits, if_true]
      cases named : name? node with
      | some name =>
        obtain rfl := eq_identifier named
        obtain rfl := eq_identifier (related.1.symm.trans named)
        exact .take ⟨rfl, rfl⟩ fun r => rfl
      | none =>
        have named' := related.1.symm.trans named
        cases node
        case identifier => cases named
        all_goals
          refine .fail rfl fun s' _ => ⟨_, rejects_unless_name named' rfl, ?_⟩
          rintro ⟨-, rfl⟩ rfl
          rfl
    · simp only [fits]
      exact .stay related fun s' _ => rfl

end

/-- Expressions, operands with signs, and chains with call markers, by induction on the depth. -/
theorem expressions_foretell [CharacterNames] {τ : Type} {literal : String → Except Datum.Fault τ}
    (alike : ReadsAlike literal) (budget budget' depth : Nat) :
    Foretells q budget budget' SameHead (expression Node.literal budget depth)
        (expression literal budget' depth) ∧
      Foretells q budget budget' SameHead (prefixed Node.literal budget depth)
        (prefixed literal budget' depth) ∧
      Foretells q budget budget' SameHead (chain Node.literal budget depth)
        (chain literal budget' depth) := by
  induction depth with
  | zero =>
    rw [expression, prefixed, chain]
    exact ⟨.throw rfl, .throw rfl, .throw rfl⟩
  | succ depth ih =>
    obtain ⟨expressions, operands, chains⟩ := ih
    refine ⟨?_, ?_, ?_⟩
    · rw [expression, expression]
      refine .start fun start start' => ?_
      refine ((operators_foretells operands).weaken And.left).bind fun left left' related =>
        (Foretells.sees "=").bind ?_
      rintro found _ rfl
      cases found with
      | false => exact .pure related
      | true =>
        cases named : name? left with
        | some name =>
          obtain rfl := eq_identifier named
          obtain rfl := eq_identifier (related.1.symm.trans named)
          exact (Foretells.expect "=").bind fun _ _ _ =>
            (expressions.weaken And.left).bind fun _ _ _ => .pure ⟨rfl, rfl⟩
        | none =>
          have named' := related.1.symm.trans named
          cases left
          case identifier => cases named
          all_goals
            intro s _ _
            refine .fail rfl fun s' _ => ⟨_, rejects_unless_name named' rfl, ?_⟩
            rintro ⟨-, rfl⟩ rfl
            rfl
    · rw [prefixed, prefixed]
      refine (Foretells.operator? _).bind ?_
      rintro found _ rfl
      cases found with
      | none => exact updated_foretells chains
      | some op => exact operands.bind fun _ _ _ => .pure ⟨rfl, rfl⟩
    · rw [chain, chain]
      refine (Foretells.accept _).bind ?_
      rintro found _ rfl
      cases found with
      | false =>
        exact (primary_foretells expressions alike).bind fun first first' related =>
          suffixes_foretells expressions (Nat.le_refl budget) (Nat.le_refl budget') related
      | true =>
        refine chains.bind fun node node' related => ?_
        cases called : isCall node with
        | true =>
          obtain ⟨callee, args, rfl⟩ := eq_call called
          obtain ⟨callee', args', rfl⟩ := eq_call (related.2.symm.trans called)
          exact .pure ⟨rfl, rfl⟩
        | false =>
          have called' := related.2.symm.trans called
          cases node
          case call => cases called
          all_goals exact fun s _ _ => .refuse fun s' _ => rejects_unless_call called' rfl

/-! ### Statements -/

section

variable {τ : Type} {budget budget' : Nat} {x : Reading Node} {y : Reading (Tree τ)}
  (inner : Foretells q budget budget' Unseen x y)
include inner

section

variable {P : List Token → Node → Prop} (takes : Yields x P)
  (nonempty : ∀ ts node, P ts node → 0 < ts.length)
include takes nonempty

theorem statementsUntil_foretells {bound fuel fuel' : Nat} (enough : fuel ≤ budget)
    (short : bound ≤ budget') (enough' : bound ≤ fuel') (before : List Node)
    (before' : List (Tree τ)) :
    Foretells q fuel bound Unseen (statementsUntil x fuel before)
      (statementsUntil y fuel' before') := by
  induction fuel generalizing bound fuel' before before' with
  | zero =>
    refine .empty (.refuse fun s' none => ?_)
    obtain rfl := List.head?_eq_none_iff.1 none
    cases fuel' with
    | zero | succ => rfl
  | succ fuel ih =>
    have round {fuel' : Nat} (enough' : bound ≤ fuel' + 1) :
        Foretells q (fuel + 1) bound Unseen (statementsUntil x (fuel + 1) before)
          (statementsUntil y (fuel' + 1) before') := by
      have further (before : List Node) (before' : List (Tree τ)) :
          Foretells q fuel (bound - 1) Unseen (statementsUntil x fuel before)
            (statementsUntil y fuel' before') :=
        ih (Nat.le_of_succ_le enough) (by omega) (by omega) before before'
      have statements := Foretells.bind_taking takes nonempty (inner.mono enough short)
        fun node node' _ => further (node :: before) (node' :: before')
      refine .branch _ (.pure trivial) (.peek ?_ ?_)
      · exact .refuse fun s' _ => rfl
      · intro t rest lexical short
        have separated := Foretells.branch ";" (further before before') statements
        exact (separated lexical short).of_head fun r => rfl
    cases fuel' with
    | zero =>
      obtain rfl : bound = 0 := Nat.le_zero.1 enough'
      exact (round (Nat.zero_le 1)).of_empty rfl
    | succ fuel' => exact round enough'

theorem block_foretells : Foretells q budget budget' Unseen (block budget x) (block budget' y) :=
  (Foretells.expect _).bind fun _ _ _ => statementsUntil_foretells inner takes nonempty
    (Nat.le_refl budget) (Nat.le_refl budget') (Nat.le_refl budget') [] []

/-- One round more than there are tokens is enough for a program. -/
theorem statementsToEnd_foretells {bound count rounds : Nat} (enough : count ≤ budget)
    (short : bound ≤ budget') (enough' : bound ≤ rounds) (before : List Node)
    (before' : List (Tree τ)) :
    Foretells q count bound Unseen (statementsToEnd x (count + 1) before)
      (statementsToEnd y (rounds + 1) before') := by
  induction count generalizing bound rounds before before' with
  | zero =>
    refine .empty (.stay (b := before'.reverse) trivial fun s' none => ?_)
    obtain rfl := List.head?_eq_none_iff.1 none
    rfl
  | succ count ih =>
    have round {rounds : Nat} (enough' : bound ≤ rounds + 1) :
        Foretells q (count + 1) bound Unseen (statementsToEnd x (count + 2) before)
          (statementsToEnd y (rounds + 2) before') := by
      have further (before : List Node) (before' : List (Tree τ)) :
          Foretells q count (bound - 1) Unseen (statementsToEnd x (count + 1) before)
            (statementsToEnd y (rounds + 1) before') :=
        ih (Nat.le_of_succ_le enough) (by omega) (by omega) before before'
      have statements := Foretells.bind_taking takes nonempty (inner.mono enough short)
        fun node node' _ => further (node :: before) (node' :: before')
      refine .peek (.stay (b := before'.reverse) trivial fun s' _ => rfl) ?_
      intro t rest lexical short
      have separated := Foretells.branch ";" (further before before') statements
      exact (separated lexical short).of_head fun r => rfl
    cases rounds with
    | zero =>
      obtain rfl : bound = 0 := Nat.le_zero.1 enough'
      exact (round (Nat.zero_le 1)).of_empty rfl
    | succ rounds => exact round enough'

end

theorem declaration_foretells :
    Foretells q budget budget' Unseen (declaration x) (declaration y) := by
  refine (Foretells.expect _).bind fun _ _ _ => Foretells.identifier.bind fun name name' _ =>
    (Foretells.accept _).bind ?_
  rintro found _ rfl
  cases found with
  | true => exact inner.bind fun init init' _ => .pure trivial
  | false => exact .pure trivial

theorem optionalUnless_foretells (mark : String) :
    Foretells q budget budget' Unseen (optionalUnless mark x) (optionalUnless mark y) := by
  refine (Foretells.sees mark).bind ?_
  rintro found _ rfl
  cases found with
  | true => exact .pure trivial
  | false => exact inner.bind fun e e' _ => .pure trivial

theorem returning_foretells : Foretells q budget budget' Unseen (returning x) (returning y) :=
  (Foretells.expect _).bind fun _ _ _ => (optionalUnless_foretells inner ";").bind fun _ _ _ =>
    (Foretells.expect _).bind fun _ _ _ => .pure trivial

theorem expressionStatement_foretells :
    Foretells q budget budget' Unseen (expressionStatement x) (expressionStatement y) :=
  inner.bind fun _ _ _ => (Foretells.expect _).bind fun _ _ _ => .pure trivial

end

section

variable {τ : Type} {budget budget' : Nat} {body : Reading (List Node)}
  {body' : Reading (List (Tree τ))} (bodies : Foretells q budget budget' Unseen body body')
include bodies

theorem function_foretells :
    Foretells q budget budget' Unseen (function budget body) (function budget' body') :=
  (Foretells.expect _).bind fun _ _ _ => Foretells.identifier.bind fun _ _ _ =>
    (Foretells.expect _).bind fun _ _ _ =>
      (itemsUntil_foretells Foretells.identifier.unseen ")").bind fun _ _ _ =>
        bodies.bind fun _ _ _ => .pure trivial

variable {x : Reading Node} {y : Reading (Tree τ)} (inner : Foretells q budget budget' Unseen x y)
include inner

theorem whileLoop_foretells :
    Foretells q budget budget' Unseen (whileLoop x body) (whileLoop y body') :=
  (Foretells.expect _).bind fun _ _ _ => (Foretells.expect _).bind fun _ _ _ =>
    inner.bind fun _ _ _ => (Foretells.expect _).bind fun _ _ _ =>
      bodies.bind fun _ _ _ => .pure trivial

theorem forLoop_foretells :
    Foretells q budget budget' Unseen (forLoop x body) (forLoop y body') := by
  have optionals := optionalUnless_foretells inner
  refine (Foretells.expect _).bind fun _ _ _ => (Foretells.expect _).bind fun _ _ _ =>
    (Foretells.sees _).bind ?_
  rintro found _ rfl
  -- both ways of starting the loop go on in the same way
  have afterInit (init : Option Node) (init' : Option (Tree τ)) :
      Foretells q budget budget' Unseen
        (do
          expect ";"
          let test ← optionalUnless ";" x
          expect ";"
          let update ← optionalUnless ")" x
          expect ")"
          let body ← body
          return .forLoop init test update body : Reading Node)
        (do
          expect ";"
          let test ← optionalUnless ";" y
          expect ";"
          let update ← optionalUnless ")" y
          expect ")"
          let body ← body'
          return .forLoop init' test update body : Reading (Tree τ)) :=
    (Foretells.expect _).bind fun _ _ _ => (optionals ";").bind fun _ _ _ =>
      (Foretells.expect _).bind fun _ _ _ => (optionals ")").bind fun _ _ _ =>
        (Foretells.expect _).bind fun _ _ _ => bodies.bind fun _ _ _ => .pure trivial
  cases found with
  | true =>
    have declared : Foretells q budget budget' Unseen (some <$> declaration x)
        (some <$> declaration y) := by
      simp only [map_eq_pure_bind]
      exact (declaration_foretells inner).bind fun _ _ _ => .pure trivial
    exact declared.bind fun init init' _ => afterInit init init'
  | false => exact (optionals ";").bind fun init init' _ => afterInit init init'

end

theorem jump_foretells {τ : Type} {budget budget' : Nat} (inLoop : Bool) (node : Node)
    (node' : Tree τ) :
    Foretells q budget budget' Unseen (jump inLoop node) (jump inLoop node') := by
  intro s lexical short
  cases s with
  | nil =>
    refine .refuse fun s' none => ?_
    obtain rfl := List.head?_eq_none_iff.1 none
    rfl
  | cons t rest =>
    cases inLoop with
    | false =>
      refine .fail rfl fun s' same => ?_
      obtain ⟨r, rfl⟩ := List.head?_eq_some_iff.1 same
      refine ⟨.strayJump t (t :: r), rfl, ?_⟩
      rintro - equal
      rw [equal]
    | true =>
      -- inside of a loop, the keyword is taken and the mark is left
      have ended : Foretells q budget (budget' - 1) Unseen (expect ";" >>= fun _ => Pure.pure node)
          (expect ";" >>= fun _ => Pure.pure node') :=
        (Foretells.expect ";").bind fun _ _ _ => .pure trivial
      have taken := ended (fun u member => lexical u (by simp [member]))
        (Nat.le_of_succ_le short)
      exact taken.skip fun r => rfl

/-- Statements and conditional statements, by induction on the depth. -/
theorem statements_foretell [CharacterNames] {τ : Type} {literal : String → Except Datum.Fault τ}
    (alike : ReadsAlike literal) (budget budget' depth : Nat) (inLoop : Bool) :
    Foretells q budget budget' Unseen (statement Node.literal budget depth inLoop)
        (statement literal budget' depth inLoop) ∧
      Foretells q budget budget' Unseen (conditional Node.literal budget depth inLoop)
        (conditional literal budget' depth inLoop) := by
  induction depth generalizing inLoop with
  | zero =>
    rw [statement, conditional]
    exact ⟨.throw rfl, .throw rfl⟩
  | succ depth ih =>
    have expressions := (expressions_foretell (q := q) alike budget budget' depth).1.unseen
    -- every statement takes a token, which is what bounds the rounds of a block
    have blocks (inLoop : Bool) := block_foretells (ih inLoop).1
      (yields_statements budget depth inLoop).1 fun ts node derived => by
        obtain ⟨t, us, rfl, -⟩ := derived.opens
        exact Nat.succ_pos us.length
    constructor
    · rw [statement, statement]
      refine .peek ?_ ?_
      · exact .refuse fun s' _ => rfl
      · intro t rest lexical short
        dsimp only
        split
        · refine (?_ : Foretells q budget budget' Unseen _ _) lexical short
          eta_reduce
          split
          · exact function_foretells (blocks false)
          · exact (declaration_foretells expressions).bind fun node node' _ =>
              (Foretells.expect ";").bind fun _ _ _ => .pure trivial
          · exact (ih inLoop).2
          · exact forLoop_foretells (blocks true) expressions
          · exact whileLoop_foretells (blocks true) expressions
          · exact returning_foretells expressions
          · exact jump_foretells inLoop _ _
          · exact jump_foretells inLoop _ _
          · exact .reject _
        · refine (?_ : Foretells q budget budget' Unseen _ _) lexical short
          split
          · exact (blocks inLoop).bind fun body body' _ => .pure trivial
          · exact expressionStatement_foretells expressions
    · rw [conditional, conditional]
      refine (Foretells.expect _).bind fun _ _ _ => (Foretells.expect _).bind fun _ _ _ =>
        expressions.bind fun _ _ _ => (Foretells.expect _).bind fun _ _ _ =>
          (blocks inLoop).bind fun _ _ _ => (Foretells.accept _).bind ?_
      rintro found _ rfl
      cases found with
      | false => exact .pure trivial
      | true =>
        refine (Foretells.sees _).bind ?_
        rintro found _ rfl
        cases found with
        | true => exact (ih inLoop).2.bind fun _ _ _ => .pure trivial
        | false => exact (blocks inLoop).bind fun _ _ _ => .pure trivial

/-! ### Programs -/

section

variable [CharacterNames] {τ : Type} {literal : String → Except Datum.Fault τ} {limit : Nat}
  {tokens : List Token}

/-- Reading the tokens of a program foretells reading another list. -/
theorem program_foretells (alike : ReadsAlike literal) (lexical : ∀ t ∈ tokens, t.Lexical)
    (limit : Nat) (other : List Token) :
    ForetellsAt True other.length Unseen tokens
      (statementsToEnd (statement literal other.length limit false) (other.length + 1) [])
      (statementsToEnd (statement Node.literal tokens.length limit false) (tokens.length + 1) []
        tokens) := by
  have statements :=
    (statements_foretell (q := True) alike tokens.length other.length limit false).1
  refine statementsToEnd_foretells statements (yields_statements tokens.length limit false).1 ?_
    (Nat.le_refl _) (Nat.le_refl _) (Nat.le_refl _) [] [] lexical (Nat.le_refl _)
  intro ts node derived
  obtain ⟨t, us, rfl, -⟩ := derived.opens
  exact Nat.succ_pos us.length

/-- Tokens of source text are read as a program, whatever string tokens stand for. -/
theorem program_of_alike (alike : ReadsAlike literal) (lexical : ∀ t ∈ tokens, t.Lexical)
    {tree : Node} (read : program Node.literal limit tokens = .ok tree) :
    ∃ tree', program literal limit tokens = .ok tree' := by
  have foretells := program_foretells alike lexical limit tokens
  unfold program at read ⊢
  dsimp only [StateT.run] at read ⊢
  split at read
  next body rest taken =>
    rw [taken] at foretells
    obtain ⟨⟨ts, split⟩, same⟩ := foretells.alike rest rfl
    obtain ⟨body', taken', -⟩ := same tokens rest ⟨ts, split.symm, split.symm, rfl, Nat.le_refl _⟩
    rw [taken']
    exact ⟨_, rfl⟩
  · cases read

/-- Tokens of source text are rejected for the same reason, whatever string tokens stand for. -/
theorem program_eq_error (alike : ReadsAlike literal) (lexical : ∀ t ∈ tokens, t.Lexical)
    {rejection : Rejection} :
    program literal limit tokens = .error rejection ↔
      program Node.literal limit tokens = .error rejection := by
  have repeats {rejection : Rejection}
      (rejected : program Node.literal limit tokens = .error rejection) :
      program literal limit tokens = .error rejection := by
    have foretells := program_foretells alike lexical limit tokens
    unfold program at rejected ⊢
    dsimp only [StateT.run] at rejected ⊢
    split at rejected
    · cases rejected
    next failed =>
      cases rejected
      rw [foretells.repeats trivial (Nat.le_refl _) rejection failed]
  refine ⟨fun rejected => ?_, repeats⟩
  cases outcome : program Node.literal limit tokens with
  | ok tree =>
    obtain ⟨tree', read⟩ := program_of_alike alike lexical outcome
    cases read.symm.trans rejected
  | error other =>
    -- both are rejected, and the reason is carried over
    cases (repeats outcome).symm.trans rejected
    rfl

/-- A list that begins like a rejected one, up to the token at which that was rejected, is rejected
too. -/
theorem program_rejects (alike : ReadsAlike literal) (lexical : ∀ t ∈ tokens, t.Lexical)
    {rejection : Rejection} {rest : List Token}
    (rejected : program Node.literal limit tokens = .error rejection)
    (cursor : rejection.cursor? = some rest) :
    ∃ front, tokens = front ++ rest ∧ ∀ rest', rest'.head? = rest.head? →
      ∃ other, program literal limit (front ++ rest') = .error other := by
  have foretells := program_foretells alike lexical limit
  unfold program at rejected ⊢
  dsimp only [StateT.run] at rejected ⊢
  split at rejected
  · cases rejected
  next failed =>
    cases rejected
    rw [failed] at foretells
    -- where the tokens end does not depend on the other list, so it is found with this one
    obtain ⟨⟨front, split⟩, -⟩ := (foretells tokens).alike rest cursor
    refine ⟨front, split.symm, fun rest' same => ?_⟩
    obtain ⟨other, failed'⟩ := ((foretells (front ++ rest')).alike rest cursor).2 (front ++ rest')
      rest' ⟨front, split.symm, rfl, same, Nat.le_refl _⟩
    rw [failed']
    exact ⟨other, rfl⟩

end

end Reading

end YapLang
