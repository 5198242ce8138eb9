import Appraisal.Completion
import Appraisal.Main
import Appraisal.Proofs.Candour
import Appraisal.Proofs.Dependence
import Appraisal.Proofs.Durability
import Appraisal.Proofs.LostUpdate
import Appraisal.Proofs.Remote
import Appraisal.Proofs.Failure
import Appraisal.Proofs.Submission
import Appraisal.Proofs.Average
import Appraisal.Proofs.Description
import Appraisal.Proofs.Joining
import Appraisal.Proofs.Attainable
import Appraisal.Proofs.Improvement
import Appraisal.Proofs.Fences
import Appraisal.Proofs.Remarks
import Appraisal.Proofs.Enclosure
import Appraisal.Proofs.Proportion
import Appraisal.Proofs.Significand
import Appraisal.Proofs.Counts
import Appraisal.Proofs.Question
import Appraisal.Proofs.Tags
import Appraisal.Proofs.Address
import Appraisal.Proofs.Markdown
import Appraisal.Proofs.Limits
import Appraisal.Proofs.Completions
import Appraisal.Proofs.Tables
import Appraisal.Proofs.Arrangement
