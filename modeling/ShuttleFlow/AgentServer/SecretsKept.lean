import ShuttleFlow.AgentServer.SecretsStore

/-! # Which secrets the store keeps

A secret can be recovered with the key it was written with, or without a key. A request reads
all secrets with the cipher of the store and writes back what it could read.
-/

namespace ShuttleFlow

variable {Key : Type} [DecidableEq Key]

/-- A secret that can be read with a key, or without one. -/
structure Recoverable (Key : Type) where
  key : Option Key
  value : SecretText Key
  description : Option String

/-- The key that a text was written with, and what was written. -/
def SecretText.recover : SecretText Key → Option (Option Key × SecretText Key)
  | plain text => if (plain text : SecretText Key).isMissing then none else some (none, plain text)
  | token key content => some (some key, content)

def StoredField.recover {Text Found : Type} (find : Text → Option Found) :
    StoredField Text → Option Found
  | missing | other => none
  | text found => find found

def StoredSecret.recover (stored : StoredSecret Key) : Option (Recoverable Key) :=
  stored.normalize.bind fun fields => (fields.1.recover SecretText.recover).map fun found =>
    { key := found.1, value := found.2, description := fields.2.recover some }

def SecretsFile.recover (name : String) : SecretsFile Key → Option (Recoverable Key)
  | .absent | .inaccessible | .corrupted _ => none
  | .secrets entries => (entries.get? name).bind StoredSecret.recover

/-- Whether the file is read. It does not depend on the cipher. -/
def SecretsFile.isValid : SecretsFile Key → Bool
  | .absent => true
  | .inaccessible | .corrupted _ => false
  | .secrets entries => entries.entries.all fun entry => entry.2.isValid entry.1

/-- Whether there is an entry for a name. -/
def SecretsFile.hasEntry (name : String) : SecretsFile Key → Bool
  | .absent | .inaccessible | .corrupted _ => false
  | .secrets entries => ((entries.get? name).bind StoredSecret.normalize).isSome

namespace SecretsRequest

/-- The name that a request is about. -/
def name : SecretsRequest Key → String
  | get name | set name _ _ | delete name => name

/-- Whether the request writes the file. -/
def writes (file : SecretsFile Key) : SecretsRequest Key → Bool
  | get _ => false
  | set name _ _ => file.isValid && isSecretName name
  | delete name => file.isValid && file.hasEntry name

end SecretsRequest

namespace FileSecretsStore

/-- A request raises and leaves the file as it was, or it keeps all other secrets. -/
def Keeps (cipher : Option Key) (file : SecretsFile Key) (request : SecretsRequest Key) : Prop :=
  (∃ error, perform cipher request file = { reply := .error error }) ∨
    ∀ name, name ≠ request.name → ∀ found, file.recover name = some found →
      ((perform cipher request file).written.getD file).recover name = some found

/-- Nothing is written, or the store has no cipher, or all other secrets were written with
its key. -/
def Readable (cipher : Option Key) (file : SecretsFile Key) (request : SecretsRequest Key) :
    Prop :=
  request.writes file = false ∨ cipher = none ∨
    ∀ name, name ≠ request.name → ∀ found, file.recover name = some found → found.key = cipher

variable {cipher : Option Key} {file : SecretsFile Key} {name : String}

/-! ## Reading and writing again -/

/-- Whether the store can read what was found. -/
def reads (cipher : Option Key) (found : Option Key) : Bool :=
  cipher.isNone || found = cipher

/-- A text that was read and written again can be recovered if the store reads it. -/
theorem recover_serializeSecret (cipher : Option Key) (secret : SecretText Key) :
    ((validateSecret cipher secret).map (serializeSecret cipher)).bind SecretText.recover =
      secret.recover.filter fun found => reads cipher found.1 := by
  cases cipher with
  | none =>
      cases secret with
      | plain text =>
          by_cases hmissing : (SecretText.plain text : SecretText Key).isMissing
          · simp [validateSecret, SecretText.recover, hmissing]
          · simp [validateSecret, serializeSecret, SecretText.recover, reads, Option.filter_some,
            hmissing]
      | token key content => rfl
  | some key =>
      cases secret with
      | plain text =>
          by_cases hmissing : (SecretText.plain text : SecretText Key).isMissing
          · simp [validateSecret, SecretText.recover, hmissing]
          · simp [validateSecret, SecretText.decrypt, SecretText.recover, reads,
            Option.filter_some, hmissing]
      | token other content =>
          by_cases hkey : other = key
          · simp [validateSecret, serializeSecret, SecretText.isMissing, SecretText.decrypt,
              SecretText.encrypt, SecretText.recover, reads, Option.filter_some, hkey]
          · simp [validateSecret, SecretText.isMissing, SecretText.decrypt, SecretText.recover,
              reads, Option.filter_some, hkey]

theorem recover_ofOption {Text Found : Type} (find : Text → Option Found) (text : Option Text) :
    (StoredField.ofOption text).recover find = text.bind find := by
  cases text <;> rfl

theorem eq_ofOption_of_value? {Text : Type} {field : StoredField Text} {text : Option Text}
    (hvalue : field.value? = some text) : field = .ofOption text := by
  cases field with
  | missing =>
      cases hvalue
      rfl
  | text found =>
      cases hvalue
      rfl
  | other => cases hvalue

/-- A secret that validates is read. -/
theorem read_of_isValid {stored : StoredSecret Key} (hvalid : stored.isValid name)
    (cipher : Option Key) :
    stored.normalize = none ∧ stored.read cipher name = none ∨
      ∃ secret description, isSecretName name ∧
        stored.normalize = some (.ofOption secret, .ofOption description) ∧
        stored.read cipher name =
          some { name, secret := secret.bind (validateSecret cipher), description } := by
  cases hfields : stored.normalize with
  | none =>
      refine .inl ⟨rfl, ?_⟩
      rw [StoredSecret.read, hfields, Option.bind_none]
  | some fields =>
      rw [StoredSecret.isValid, hfields, Option.all_some, Bool.and_eq_true, Bool.and_eq_true]
        at hvalid
      obtain ⟨⟨hsecret, hdescription⟩, hname⟩ := hvalid
      obtain ⟨secret, hsecret⟩ := Option.isSome_iff_exists.mp hsecret
      obtain ⟨description, hdescription⟩ := Option.isSome_iff_exists.mp hdescription
      refine .inr ⟨secret, description, hname, ?_, ?_⟩
      · rw [← eq_ofOption_of_value? hsecret, ← eq_ofOption_of_value? hdescription]
      · rw [StoredSecret.read, hfields, Option.bind_some, hsecret, Option.bind_some, hdescription,
          Option.bind_some, CustomSecret.validate, if_pos hname]

/-- What is written of a secret that was read. -/
theorem recover_dump_read {stored : StoredSecret Key} (hvalid : stored.isValid name)
    (cipher : Option Key) :
    (stored.read cipher name).bind (fun secret => (secret.dump cipher).recover) =
      stored.recover.filter fun found => reads cipher found.key := by
  obtain ⟨hnone, hread⟩ | ⟨secret, description, -, hfields, hread⟩ := read_of_isValid hvalid cipher
  · rw [hread, StoredSecret.recover, hnone]
    rfl
  · rw [hread, StoredSecret.recover, hfields]
    simp only [Option.bind_some, CustomSecret.dump, StoredSecret.recover, StoredSecret.normalize,
      recover_ofOption]
    cases secret with
    | none => rfl
    | some secret =>
        rw [Option.bind_some, Option.bind_some, recover_serializeSecret]
        cases secret.recover with
        | none => rfl
        | some found => cases hreads : reads cipher found.1 <;> simp [Option.filter_some, hreads]

/-! ## Requests that write -/

/-- What is loaded of a file that is valid. -/
def loaded (cipher : Option Key) : SecretsFile Key → Secrets Key
  | .absent | .inaccessible | .corrupted _ => .empty
  | .secrets entries => entries.filterMap fun name stored => stored.read cipher name

theorem load_of_isValid (hvalid : file.isValid) (cipher : Option Key) :
    load cipher file = .ok (if pathExists file then some (loaded cipher file) else none) := by
  cases file with
  | absent => rfl
  | inaccessible | corrupted _ => cases hvalid
  | secrets entries => exact congrArg Except.ok (if_pos hvalid)

theorem load_of_not_isValid (hvalid : file.isValid = false) (cipher : Option Key) :
    load cipher file = .error .osError ∨
      load cipher file = .ok none ∧ pathExists file = true := by
  cases file with
  | absent => cases hvalid
  | inaccessible => exact .inl rfl
  | corrupted _ => exact .inr ⟨rfl, rfl⟩
  | secrets entries => exact .inr ⟨congrArg Except.ok (if_neg (ne_true_of_eq_false hvalid)), rfl⟩

omit [DecidableEq Key] in
theorem isValid_entry {entries : Dict String (StoredSecret Key)}
    (hvalid : (SecretsFile.secrets entries).isValid) {stored : StoredSecret Key}
    (hget : entries.get? name = some stored) : stored.isValid name :=
  List.all_eq_true.mp hvalid _ (Dict.mem_entries_of_get? hget)

/-- What can be recovered of the secrets that were loaded. -/
theorem recover_loaded (hvalid : file.isValid) (cipher : Option Key) (name : String) :
    ((loaded cipher file).get? name).bind (fun secret => (secret.dump cipher).recover) =
      (file.recover name).filter fun found => reads cipher found.key := by
  cases file with
  | absent => rfl
  | inaccessible | corrupted _ => cases hvalid
  | secrets entries =>
      rw [loaded, Dict.get?_filterMap, SecretsFile.recover]
      cases hget : entries.get? name with
      | none => rfl
      | some stored => exact recover_dump_read (isValid_entry hvalid hget) cipher

omit [DecidableEq Key] in
theorem recover_save (cipher : Option Key) (secrets : Secrets Key) (name : String) :
    (save cipher secrets).recover name =
      (secrets.get? name).bind fun secret => (secret.dump cipher).recover := by
  rw [save, SecretsFile.recover, Dict.get?_filterMap]
  cases secrets.get? name <;> rfl

/-- What a request leaves of the secrets that were loaded. -/
def changed (secrets : Secrets Key) : SecretsRequest Key → Secrets Key
  | .get _ => secrets
  | .set name value description =>
      secrets.set name { name, secret := validateSecret none value, description }
  | .delete name => secrets.erase name

theorem get?_changed (secrets : Secrets Key) {request : SecretsRequest Key}
    (hname : name ≠ request.name) : (changed secrets request).get? name = secrets.get? name := by
  cases request with
  | get _ => rfl
  | set other value description => exact (Dict.get?_set ..).trans (if_neg hname)
  | delete other => exact (Dict.get?_erase ..).trans (if_neg hname)

theorem mem_keys_loaded_iff (hvalid : file.isValid) (cipher : Option Key) (name : String) :
    name ∈ (loaded cipher file).keys ↔ file.hasEntry name := by
  cases file with
  | absent => exact iff_of_false List.not_mem_nil Bool.false_ne_true
  | inaccessible | corrupted _ => cases hvalid
  | secrets entries =>
      rw [← Dict.isSome_get?_iff, loaded, Dict.get?_filterMap, SecretsFile.hasEntry]
      cases hget : entries.get? name with
      | none => rfl
      | some stored =>
          rw [Option.bind_some, Option.bind_some]
          obtain ⟨hnone, hread⟩ | ⟨secret, description, -, hfields, hread⟩ :=
            read_of_isValid (isValid_entry hvalid hget) cipher
          · rw [hnone, hread]
            exact Iff.rfl
          · rw [hfields, hread]
            rfl

theorem loaded_of_not_pathExists (hpath : pathExists file = false) (cipher : Option Key) :
    loaded cipher file = .empty := by
  cases file with
  | absent | inaccessible | corrupted _ => rfl
  | secrets _ => cases hpath

theorem setSecret_of_isValid (hvalid : file.isValid) (cipher : Option Key) (name : String)
    (value : SecretText Key) (description : Option String) :
    setSecret cipher name value description file =
      if isSecretName name then
        .ok (save cipher (changed (loaded cipher file) (.set name value description)))
      else .error .invalidName := by
  have hloaded : (if pathExists file then some (loaded cipher file) else none).getD .empty =
      loaded cipher file := by
    split
    next => rfl
    next hpath => exact (loaded_of_not_pathExists (eq_false_of_ne_true hpath) cipher).symm
  have hread : ((if pathExists file then some (loaded cipher file) else none).isNone &&
      pathExists file) = false := by
    cases pathExists file <;> rfl
  simp only [setSecret, load_of_isValid hvalid, hread, Bool.false_eq_true, if_false, hloaded,
    CustomSecret.validate]
  by_cases hname : isSecretName name
  · rw [if_pos hname, if_pos hname]
    rfl
  · rw [if_neg hname, if_neg hname]

theorem deleteSecret_of_isValid (hvalid : file.isValid) (cipher : Option Key) (name : String) :
    deleteSecret cipher name file =
      if file.hasEntry name then
        .ok (true, some (save cipher (changed (loaded cipher file) (.delete name))))
      else .ok (false, none) := by
  rw [deleteSecret, load_of_isValid hvalid]
  cases hpath : pathExists file with
  | false =>
      have hentry : file.hasEntry name = false := by
        cases file with
        | absent | inaccessible | corrupted _ => rfl
        | secrets _ => cases hpath
      rw [hentry]
      rfl
  | true =>
      simp only [if_true, mem_keys_loaded_iff hvalid]
      rfl

/-- A file that is not valid is not written over. -/
theorem refused_of_not_isValid (hvalid : file.isValid = false) (cipher : Option Key)
    (name : String) :
    (∀ value description, ∃ error, setSecret cipher name value description file = .error error) ∧
      ∃ error, deleteSecret cipher name file = .error error := by
  obtain hload | ⟨hload, hpath⟩ := load_of_not_isValid hvalid cipher
  · exact ⟨fun value description => ⟨.osError, by rw [setSecret, hload]⟩,
      ⟨.osError, by rw [deleteSecret, hload]⟩⟩
  · exact ⟨fun value description => ⟨.refused, by rw [setSecret, hload, hpath]; rfl⟩,
      ⟨.refused, by rw [deleteSecret, hload, hpath]; rfl⟩⟩

/-- A request that writes succeeds and changes its own secret only. -/
theorem perform_of_writes {request : SecretsRequest Key} (hwrites : request.writes file) :
    (∃ reply, (perform cipher request file).reply = .ok reply) ∧
      (perform cipher request file).written =
        some (save cipher (changed (loaded cipher file) request)) := by
  cases request with
  | get _ => cases hwrites
  | set name value description =>
      obtain ⟨hvalid, hname⟩ := (Bool.and_eq_true ..).mp hwrites
      rw [perform, setSecret_of_isValid hvalid, if_pos hname]
      exact ⟨⟨.done, rfl⟩, rfl⟩
  | delete name =>
      obtain ⟨hvalid, hentry⟩ := (Bool.and_eq_true ..).mp hwrites
      rw [perform, deleteSecret_of_isValid hvalid, if_pos hentry]
      exact ⟨⟨.deleted true, rfl⟩, rfl⟩

/-- A request that writes nothing to set a secret raises. -/
theorem perform_of_not_writes {request : SecretsRequest Key}
    (hwrites : request.writes file = false) :
    (perform cipher request file).written = none ∧
      ∀ name value description, request = .set name value description →
        ∃ error, (perform cipher request file).reply = .error error := by
  cases request with
  | get _ => exact ⟨rfl, nofun⟩
  | set name value description =>
      have herror : ∃ error, setSecret cipher name value description file = .error error := by
        cases hvalid : file.isValid with
        | false => exact (refused_of_not_isValid hvalid cipher name).1 value description
        | true =>
            rw [SecretsRequest.writes, hvalid, Bool.true_and] at hwrites
            exact ⟨.invalidName, by rw [setSecret_of_isValid hvalid, hwrites]; rfl⟩
      obtain ⟨error, herror⟩ := herror
      rw [perform, herror]
      exact ⟨rfl, fun _ _ _ _ => ⟨error, rfl⟩⟩
  | delete name =>
      refine ⟨?_, nofun⟩
      cases hvalid : file.isValid with
      | false =>
          obtain ⟨error, herror⟩ := (refused_of_not_isValid hvalid cipher name).2
          rw [perform, herror]
      | true =>
          rw [SecretsRequest.writes, hvalid, Bool.true_and] at hwrites
          rw [perform, deleteSecret_of_isValid hvalid, hwrites]
          rfl

/-- What can be recovered of the other secrets after a request that writes. -/
theorem recover_of_writes {request : SecretsRequest Key} (hwrites : request.writes file)
    (hname : name ≠ request.name) :
    ((perform cipher request file).written.getD file).recover name =
      (file.recover name).filter fun found => reads cipher found.key := by
  have hvalid : file.isValid := by
    cases request with
    | get _ => cases hwrites
    | set _ _ _ | delete _ => exact ((Bool.and_eq_true ..).mp hwrites).1
  rw [(perform_of_writes hwrites).2, Option.getD_some, recover_save, get?_changed _ hname,
    recover_loaded hvalid]

/-- The other secrets are kept exactly if the store can read them. -/
theorem keeps_iff_readable {request : SecretsRequest Key} :
    Keeps cipher file request ↔ Readable cipher file request := by
  cases hwrites : request.writes file with
  | false =>
      refine iff_of_true (.inr fun name _ found hfound => ?_) (.inl hwrites)
      rw [(perform_of_not_writes hwrites).1]
      exact hfound
  | true =>
      have hreads : ∀ found : Recoverable Key,
          reads cipher found.key ↔ cipher = none ∨ found.key = cipher := by
        intro found
        rw [reads, Bool.or_eq_true, Option.isNone_iff_eq_none, decide_eq_true_iff]
      obtain ⟨reply, hreply⟩ := (@perform_of_writes _ _ cipher _ _ hwrites).1
      constructor
      · rintro (⟨error, herror⟩ | hkeeps)
        · rw [herror] at hreply
          cases hreply
        · refine .inr (or_iff_not_imp_left.mpr fun hcipher name hname found hfound => ?_)
          have hfound' := hkeeps name hname found hfound
          rw [recover_of_writes hwrites hname, Option.filter_eq_some_iff] at hfound'
          exact ((hreads found).mp hfound'.2).resolve_left hcipher
      · rintro (hsilent | hreadable)
        · cases hwrites.symm.trans hsilent
        · refine .inr fun name hname found hfound => ?_
          rw [recover_of_writes hwrites hname, hfound]
          refine Option.filter_some_pos ((hreads found).mpr ?_)
          exact hreadable.imp_right fun hall => hall name hname found hfound

/-! ## What is returned -/

/-- A text that a store can have read. -/
def Settled (cipher : Option Key) (secret : SecretText Key) : Prop :=
  cipher = none → secret.isMissing = false

theorem settled_of_validateSecret {secret found : SecretText Key}
    (hfound : validateSecret cipher secret = some found) : Settled cipher found := by
  rintro rfl
  rw [validateSecret] at hfound
  split at hfound
  next => cases hfound
  next hmissing =>
    cases hfound
    exact eq_false_of_ne_true hmissing

theorem validateSecret_serializeSecret {secret : SecretText Key}
    (hsettled : Settled cipher secret) :
    validateSecret cipher (serializeSecret cipher secret) = some secret := by
  cases cipher with
  | none => exact if_neg (ne_true_of_eq_false (hsettled rfl))
  | some key => exact if_pos rfl

theorem value?_ofOption {Text : Type} (text : Option Text) :
    (StoredField.ofOption text).value? = some text := by
  cases text <;> rfl

omit [DecidableEq Key] in
theorem isValid_save {secrets : Secrets Key}
    (hnames : ∀ other found, secrets.get? other = some found → isSecretName other)
    (cipher : Option Key) : (save cipher secrets).isValid := by
  refine List.all_eq_true.mpr ?_
  rintro ⟨name, stored⟩ hentry
  have hget := Dict.get?_of_mem_entries hentry
  rw [Dict.get?_filterMap] at hget
  obtain ⟨found, hfound, hdump⟩ := Option.bind_eq_some_iff.mp hget
  rw [← Option.some.inj hdump, StoredSecret.isValid, CustomSecret.dump, StoredSecret.normalize,
    Option.all_some, value?_ofOption, value?_ofOption, hnames name found hfound]
  rfl

theorem getSecret_of_isValid (hvalid : file.isValid) (cipher : Option Key) (name : String) :
    getSecret cipher name file =
      .ok (((loaded cipher file).get? name).bind CustomSecret.secret) := by
  rw [getSecret, load_of_isValid hvalid]
  split
  next => rfl
  next hpath =>
    rw [loaded_of_not_pathExists (eq_false_of_ne_true hpath)]
    rfl

/-- A secret that is written with a valid name is read again. -/
theorem getSecret_save {secrets : Secrets Key}
    (hnames : ∀ other found, secrets.get? other = some found → isSecretName other)
    {found : CustomSecret Key} {secret : SecretText Key} (hget : secrets.get? name = some found)
    (hsecret : found.secret = some secret) (hsettled : Settled cipher secret) :
    getSecret cipher name (save cipher secrets) = .ok (some secret) := by
  rw [getSecret_of_isValid (isValid_save hnames cipher), save, loaded, Dict.get?_filterMap,
    Dict.get?_filterMap, hget, Option.bind_some, Option.bind_some, StoredSecret.read,
    CustomSecret.dump, StoredSecret.normalize, Option.bind_some, value?_ofOption, value?_ofOption,
    Option.bind_some, Option.bind_some, CustomSecret.validate, if_pos (hnames name found hget),
    Option.bind_some, hsecret, Option.map_some, Option.bind_some,
    validateSecret_serializeSecret hsettled]

/-- What was loaded has a valid name and a text that can have been read. -/
theorem settled_of_loaded (hvalid : file.isValid) {found : CustomSecret Key}
    (hget : (loaded cipher file).get? name = some found) :
    isSecretName name ∧ ∀ secret, found.secret = some secret → Settled cipher secret := by
  cases file with
  | absent => cases hget
  | inaccessible | corrupted _ => cases hvalid
  | secrets entries =>
      rw [loaded, Dict.get?_filterMap] at hget
      obtain ⟨stored, hstored, hread⟩ := Option.bind_eq_some_iff.mp hget
      obtain ⟨-, hnone⟩ | ⟨text, description, hname, -, hsome⟩ :=
        read_of_isValid (isValid_entry hvalid hstored) cipher
      · cases hread.symm.trans hnone
      · cases hread.symm.trans hsome
        refine ⟨hname, fun secret hsecret => ?_⟩
        obtain ⟨original, -, hvalidated⟩ := Option.bind_eq_some_iff.mp hsecret
        exact settled_of_validateSecret hvalidated

theorem getSecret_eq_some_iff {secret : SecretText Key} :
    getSecret cipher name file = .ok (some secret) ↔
      file.isValid ∧ ∃ found, (loaded cipher file).get? name = some found ∧
        found.secret = some secret := by
  cases hvalid : file.isValid with
  | false =>
      refine iff_of_false (fun hget => ?_) (fun hfound => by cases hfound.1)
      obtain hload | ⟨hload, -⟩ := load_of_not_isValid hvalid cipher
      · rw [getSecret, hload] at hget
        cases hget
      · rw [getSecret, hload] at hget
        cases hget
  | true =>
      rw [getSecret_of_isValid hvalid, Except.ok.injEq, Option.bind_eq_some_iff]
      exact (and_iff_right rfl).symm

/-- The names of what a request leaves are valid. -/
theorem isSecretName_of_changed {request : SecretsRequest Key} (hwrites : request.writes file)
    {found : CustomSecret Key}
    (hget : (changed (loaded cipher file) request).get? name = some found) :
    isSecretName name := by
  cases request with
  | get _ => cases hwrites
  | set other value description =>
      obtain ⟨hvalid, hother⟩ := (Bool.and_eq_true ..).mp hwrites
      rw [changed, Dict.get?_set] at hget
      split at hget
      next hsame => exact hsame ▸ hother
      next => exact (settled_of_loaded hvalid hget).1
  | delete other =>
      obtain ⟨hvalid, -⟩ := (Bool.and_eq_true ..).mp hwrites
      rw [changed, Dict.get?_erase] at hget
      split at hget
      next => cases hget
      next => exact (settled_of_loaded hvalid hget).1

/-- A request for another secret does not change what is returned. -/
theorem getSecret_perform {request : SecretsRequest Key} {secret : SecretText Key}
    (hget : getSecret cipher name file = .ok (some secret))
    (hother : request.writes file → name ≠ request.name) :
    getSecret cipher name ((perform cipher request file).written.getD file) =
      .ok (some secret) := by
  cases hwrites : request.writes file with
  | false =>
      rw [(perform_of_not_writes hwrites).1]
      exact hget
  | true =>
      obtain ⟨hvalid, found, hfound, hsecret⟩ := getSecret_eq_some_iff.mp hget
      rw [(perform_of_writes hwrites).2]
      exact getSecret_save (fun other found hget => isSecretName_of_changed hwrites hget)
        ((get?_changed _ (hother hwrites)).trans hfound) hsecret
        ((settled_of_loaded hvalid hfound).2 secret hsecret)

/-- A secret that was set is returned. -/
theorem getSecret_perform_set {value : SecretText Key} {description : Option String}
    {reply : SecretsReply Key}
    (hreply : (perform cipher (.set name value description) file).reply = .ok reply)
    (hvalue : value.isMissing = false) :
    getSecret cipher name
        ((perform cipher (.set name value description) file).written.getD file) =
      .ok (some value) := by
  cases hwrites : (SecretsRequest.set name value description).writes file with
  | false =>
      obtain ⟨error, herror⟩ := (perform_of_not_writes hwrites).2 name value description rfl
      cases herror.symm.trans hreply
  | true =>
      have hset : validateSecret (none : Option Key) value = some value :=
        if_neg (ne_true_of_eq_false hvalue)
      rw [(perform_of_writes hwrites).2]
      exact getSecret_save (fun other found hget => isSecretName_of_changed hwrites hget)
        ((Dict.get?_set ..).trans (if_pos rfl)) hset fun _ => hvalue

end FileSecretsStore

namespace SecretsRequest

/-- What a request that succeeded makes of the last value that was set. -/
def lastValue (name : String) (last : Option (SecretText Key)) :
    SecretsRequest Key → Option (SecretText Key)
  | get _ => last
  | set other value _ => if other = name then some value else last
  | delete other => if other = name then none else last

end SecretsRequest

namespace FileSecretsStore

open CriticalSections

abbrev SecretsCompletion (Key : Type) :=
  Completion (SecretsRequest Key) (Except StoreError (SecretsReply Key))

def lastAfter (name : String) (last : Option (SecretText Key)) :
    SecretsCompletion Key → Option (SecretText Key)
  | ⟨_, .error _⟩ => last
  | ⟨request, .ok _⟩ => request.lastValue name last

/-- The value that was set last, unless the secret was deleted since. Requests that raise do
not count. -/
def lastSet (name : String) (trace : List (SecretsCompletion Key)) : Option (SecretText Key) :=
  trace.foldl (lastAfter name) none

/-- What is returned is the value that was set last, unless it was blank or redacted. -/
def ReturnsLastSet (trace : List (SecretsCompletion Key)) : Prop :=
  ∀ before name reply later, trace = before ++ ⟨.get name, reply⟩ :: later →
    ∀ value, lastSet name before = some value → value.isMissing = false →
      reply = .ok (.value (some value))

variable {trace : List (SecretsCompletion Key)} {start last : SecretsFile Key}

/-- The secret that was set last can be read. -/
theorem getSecret_of_lastSet (hserial : Serial (perform cipher) start trace last)
    {value : SecretText Key} (hlast : lastSet name trace = some value)
    (hvalue : value.isMissing = false) : getSecret cipher name last = .ok (some value) := by
  induction hserial with
  | refl => cases hlast
  | @step trace file request hserial ih =>
      rw [lastSet, List.foldl_append] at hlast
      change lastAfter name (lastSet name trace) _ = _ at hlast
      cases hreply : (perform cipher request file).reply with
      | error error =>
          rw [hreply] at hlast
          refine getSecret_perform (ih hlast) fun hwrites => ?_
          obtain ⟨reply, hok⟩ := (@perform_of_writes _ _ cipher _ _ hwrites).1
          cases hreply.symm.trans hok
      | ok reply =>
          rw [hreply] at hlast
          cases request with
          | get other => exact getSecret_perform (ih hlast) nofun
          | set other written description =>
              change (if other = name then some written else lastSet name trace) = _ at hlast
              split at hlast
              next hsame =>
                cases hlast
                subst hsame
                exact getSecret_perform_set hreply hvalue
              next hother => exact getSecret_perform (ih hlast) fun _ => Ne.symm hother
          | delete other =>
              change (if other = name then none else lastSet name trace) = _ at hlast
              split at hlast
              next => cases hlast
              next hother => exact getSecret_perform (ih hlast) fun _ => Ne.symm hother

theorem returnsLastSet_of_serial (hserial : Serial (perform cipher) start trace last) :
    ReturnsLastSet trace := by
  intro before name reply later hsplit value hlast hvalue
  obtain ⟨file, hbefore, hreply⟩ := hserial.split hsplit
  rw [show reply = _ from hreply, perform, getSecret_of_lastSet hbefore hlast hvalue]
  rfl

/-- A request keeps the other secrets exactly if it writes nothing or the store can read them
all. In every run of several processes that use one key, what was set last is returned. -/
theorem keeps_iff_and_returnsLastSet {Process : Type} [DecidableEq Process]
    (cipher : Option Key) (start : SecretsFile Key) :
    (∀ request, Keeps cipher start request ↔ Readable cipher start request) ∧
      ∀ (trace : List (SecretsCompletion Key))
        (state : State Process (SecretsRequest Key) (SecretsFile Key)),
        (system (perform cipher)).Runs { shared := start } trace state → ReturnsLastSet trace :=
  ⟨fun _ => keeps_iff_readable,
    fun _ _ hruns => returnsLastSet_of_serial (serial_of_runs hruns)⟩

/-- One process sets a secret, and another one that waited for the lock gets it. -/
theorem keeps_iff_and_returnsLastSet_waiting :
    @ReturnsLastSet String
      [⟨.set "TOKEN" (.plain "value") none, .ok .done⟩,
        ⟨.get "TOKEN", .ok (.value (some (.plain "value")))⟩] :=
  (TransitionSystem.Runs.exists_of_run
    [.request false (.set "TOKEN" (.plain "value") none), .acquire false,
      .request true (.get "TOKEN"), .load false, .finish false, .release false, .acquire true,
      .load true, .finish true] rfl).elim fun _ hruns =>
    (@keeps_iff_and_returnsLastSet String _ Bool _ (some "key") .absent).2 _ _ hruns

/-- With a key, the store takes the secrets that were written without one. -/
theorem not_keeps_plain : ¬ ∀ (cipher : Option String) (file : SecretsFile String)
    (request : SecretsRequest String), Keeps cipher file request := by
  intro hkeeps
  have hother : "TOKEN" ≠ "OTHER" := by decide
  obtain ⟨error, herror⟩ | hkept := hkeeps (some "key")
    (.secrets (Dict.empty.set "TOKEN" (.text (.plain "value")))) (.set "OTHER" (.plain "new") none)
  · cases congrArg Section.reply herror
  · cases hkept "TOKEN" hother ⟨none, .plain "value", none⟩ rfl

end FileSecretsStore

end ShuttleFlow
