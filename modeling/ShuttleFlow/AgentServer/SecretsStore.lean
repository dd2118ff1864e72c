import ShuttleFlow.Library.CriticalSections
import ShuttleFlow.Library.Dict
import ShuttleFlow.Library.PythonText

/-! # The secrets store

Secrets are kept in one file, which is read, changed and written as a whole. A cipher is
its key; without one, secrets are written as they are. A text that was encrypted with a key
can be decrypted with that key only.
-/

namespace ShuttleFlow

variable {Key : Type} [DecidableEq Key]

inductive SecretText (Key : Type)
  | plain (text : String)
  | token (key : Key) (content : SecretText Key)
  deriving DecidableEq, Repr

def redactedSecretValue : String := "**********"

namespace SecretText

/-- Empty, blank or redacted. -/
def isMissing : SecretText Key → Bool
  | plain text => PythonText.isBlank text || text = redactedSecretValue
  | token _ _ => false

def encrypt (key : Key) (content : SecretText Key) : SecretText Key :=
  token key content

def decrypt (key : Key) : SecretText Key → Option (SecretText Key)
  | plain _ => none
  | token other content => if other = key then some content else none

end SecretText

/-- A secret that is missing, or that cannot be decrypted, is none. -/
def validateSecret (cipher : Option Key) (secret : SecretText Key) : Option (SecretText Key) :=
  if secret.isMissing then none else cipher.elim (some secret) secret.decrypt

def serializeSecret (cipher : Option Key) (secret : SecretText Key) : SecretText Key :=
  cipher.elim secret secret.encrypt

/-- A letter, and at most 63 letters, digits and underscores. The end of the pattern also
matches before a last line break. -/
def isSecretName (name : String) : Bool :=
  isName name.toList || (name.toList.getLast? = some '\n' && isName name.toList.dropLast)
where
  isLetter (c : Char) : Bool := ('a' ≤ c && c ≤ 'z') || ('A' ≤ c && c ≤ 'Z')
  isName : List Char → Bool
    | [] => false
    | first :: rest => isLetter first && rest.length ≤ 63 &&
        rest.all fun c => isLetter c || ('0' ≤ c && c ≤ '9') || c = '_'

structure CustomSecret (Key : Type) where
  name : String
  secret : Option (SecretText Key)
  description : Option String := none

/-- Secrets are validated when they are created. -/
def CustomSecret.validate (cipher : Option Key) (name : String)
    (secret : Option (SecretText Key)) (description : Option String) :
    Option (CustomSecret Key) :=
  if isSecretName name then
    some { name, secret := secret.bind (validateSecret cipher), description }
  else none

/-- A field in the file: missing or null, a text, or something else. -/
inductive StoredField (Text : Type)
  | missing
  | text (text : Text)
  | other

namespace StoredField

variable {Text : Type}

def ofOption : Option Text → StoredField Text
  | none => missing
  | some found => text found

/-- What is no text is no value. -/
def value? : StoredField Text → Option (Option Text)
  | missing => some none
  | text found => some (some found)
  | other => none

end StoredField

/-- What is in the file for a name. -/
inductive StoredSecret (Key : Type)
  | text (secret : SecretText Key)
  | record (secret : StoredField (SecretText Key)) (description : StoredField String)
  /-- Neither a text nor an object; it is left out. -/
  | other

namespace StoredSecret

/-- A text stands for a record without a description. -/
def normalize : StoredSecret Key → Option (StoredField (SecretText Key) × StoredField String)
  | text secret => some (.text secret, .missing)
  | record secret description => some (secret, description)
  | other => none

/-- The secret is left out, or it validates. -/
def isValid (name : String) (stored : StoredSecret Key) : Bool :=
  stored.normalize.all fun fields =>
    fields.1.value?.isSome && fields.2.value?.isSome && isSecretName name

def read (cipher : Option Key) (name : String) (stored : StoredSecret Key) :
    Option (CustomSecret Key) :=
  stored.normalize.bind fun fields => fields.1.value?.bind fun secret =>
    fields.2.value?.bind fun description =>
      CustomSecret.validate cipher name secret description

end StoredSecret

def CustomSecret.dump (cipher : Option Key) (secret : CustomSecret Key) : StoredSecret Key :=
  .record (.ofOption (secret.secret.map (serializeSecret cipher))) (.ofOption secret.description)

/-- The file. Without a dictionary of secrets an object counts as one without secrets. -/
inductive SecretsFile (Key : Type)
  | absent
  /-- The operating system does not let it be read. -/
  | inaccessible
  /-- It is not the text of an object with secrets. -/
  | corrupted (text : String)
  | secrets (entries : Dict String (StoredSecret Key))

inductive StoreError
  | osError | refused | invalidName
  deriving DecidableEq, Repr

abbrev Secrets (Key : Type) := Dict String (CustomSecret Key)

namespace FileSecretsStore

variable (cipher : Option Key)

def pathExists : SecretsFile Key → Bool
  | .absent => false
  | .inaccessible | .corrupted _ | .secrets _ => true

/-- All secrets have to validate. -/
def load : SecretsFile Key → Except StoreError (Option (Secrets Key))
  | .absent => .ok none
  | .inaccessible => .error .osError
  | .corrupted _ => .ok none
  | .secrets entries => .ok
      (if entries.entries.all fun entry => entry.2.isValid entry.1 then
        some (entries.filterMap fun name stored => stored.read cipher name)
      else none)

def save (secrets : Secrets Key) : SecretsFile Key :=
  .secrets (secrets.filterMap fun _ secret => some (secret.dump cipher))

def getSecret (name : String) (file : SecretsFile Key) :
    Except StoreError (Option (SecretText Key)) :=
  (load cipher file).map fun secrets => secrets.bind fun secrets =>
    (secrets.get? name).bind CustomSecret.secret

/-- A file that exists, but was not loaded, is not written over. -/
def setSecret (name : String) (value : SecretText Key) (description : Option String)
    (file : SecretsFile Key) : Except StoreError (SecretsFile Key) :=
  match load cipher file with
  | .error error => .error error
  | .ok secrets =>
      if secrets.isNone && pathExists file then .error .refused
      else
        match CustomSecret.validate none name (some value) description with
        | none => .error .invalidName
        | some secret => .ok (save cipher ((secrets.getD .empty).set name secret))

/-- Whether the secret was there, and what is written then. -/
def deleteSecret (name : String) (file : SecretsFile Key) :
    Except StoreError (Bool × Option (SecretsFile Key)) :=
  match load cipher file with
  | .error error => .error error
  | .ok none => if pathExists file then .error .refused else .ok (false, none)
  | .ok (some secrets) =>
      if name ∈ secrets.keys then .ok (true, some (save cipher (secrets.erase name)))
      else .ok (false, none)

end FileSecretsStore

inductive SecretsRequest (Key : Type)
  | get (name : String)
  | set (name : String) (value : SecretText Key) (description : Option String)
  | delete (name : String)

inductive SecretsReply (Key : Type)
  | value (value : Option (SecretText Key))
  | done
  | deleted (existed : Bool)
  deriving DecidableEq

/-- One request, under the lock of the file. -/
def FileSecretsStore.perform (cipher : Option Key) : SecretsRequest Key → SecretsFile Key →
    Section (SecretsFile Key) (Except StoreError (SecretsReply Key))
  | .get name, file => { reply := (getSecret cipher name file).map .value }
  | .set name value description, file =>
      match setSecret cipher name value description file with
      | .error error => { reply := .error error }
      | .ok written => { reply := .ok .done, written := some written }
  | .delete name, file =>
      match deleteSecret cipher name file with
      | .error error => { reply := .error error }
      | .ok (existed, written) => { reply := .ok (.deleted existed), written }

end ShuttleFlow
