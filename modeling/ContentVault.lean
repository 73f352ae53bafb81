import ContentVault.Ident.FileMap
import ContentVault.Ident.StampGenerator
import ContentVault.Json.Printer
import ContentVault.Store.Chunked.Race
import ContentVault.Vault.Interference
import ContentVault.Proofs.History.Lasting
import ContentVault.Proofs.History.Commits
import ContentVault.Proofs.History.ChunkSets
import ContentVault.Proofs.Interleaving.Contest
import ContentVault.Proofs.Store.BoundedMap
import ContentVault.Proofs.Concurrent.Race
import ContentVault.Proofs.Concurrent.Sharing
import ContentVault.Proofs.Vault.Lawful
import ContentVault.Proofs.History.Retrying
import ContentVault.Proofs.Vault.Failing
import ContentVault.Proofs.Vault.Scripts
import ContentVault.Proofs.Concurrent.Renaming
import ContentVault.Proofs.Store.Room
import ContentVault.Proofs.Vault.Holding
import ContentVault.Proofs.Vault.Uploading
import ContentVault.Proofs.Content.Grouping
import ContentVault.Proofs.Content.Sources
import ContentVault.Proofs.History.Corruption
import ContentVault.Proofs.History.Turns
import ContentVault.Proofs.Ident.FileGroups
import ContentVault.Proofs.Json.Stored
import ContentVault.Proofs.Vault.ConfigText
import ContentVault.Proofs.Ident.Dealing
import ContentVault.Proofs.Store.Scanning
